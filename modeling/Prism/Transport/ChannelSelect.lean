import Mathlib.Data.Finset.Card
import Prism.Config.Clustered
import Prism.Lib.Sorting

/-!
The ranking of channels (`prism/common/transport/channel_select.py`).

The channels of a type are sorted by one key after another, the most important one last. With strict
tags the last sort is replaced by a filter. The sort by latency is in descending order, so that of
channels with as many matching tags the slowest one is the first.

* `rankChannels_eq`: the three sorts are one.
* `rankChannels_iff`: the channels come in the documented order, exactly when.
-/

namespace Prism.Transport

open Lib Config OrderDual

/-- A `Channel`, as far as it is ranked. -/
structure Channel where
  channelId : String
  connectionType : ConnectionType
  bandwidthBps : ℤ
  latencyMs : ℤ
  tags : Finset String
deriving DecidableEq

/-- `len(tags.intersection(c.tags))`. -/
def matching (tags : Finset String) (c : Channel) : ℕ := (tags ∩ c.tags).card

/-- `rank_channels`. -/
def rankChannels (strictChannelTags : Bool) (channels : List Channel)
    (connectionType : ConnectionType) (tags : Finset String) : List Channel :=
  let channels := channels.filter fun c => c.connectionType = connectionType
  let channels := sortBy (fun c => toDual c.bandwidthBps) channels
  let channels := sortBy (fun c => toDual c.latencyMs) channels
  if strictChannelTags then channels.filter fun c => (tags ∩ c.tags).Nonempty
  else sortBy (fun c => toDual (matching tags c)) channels

/-! ### The documented order -/

/-- The channels that are ranked: those of the type, and in strict mode those that share a tag. -/
def eligible (strictChannelTags : Bool) (channels : List Channel)
    (connectionType : ConnectionType) (tags : Finset String) : List Channel :=
  channels.filter fun c => c.connectionType = connectionType ∧
    (strictChannelTags = true → (tags ∩ c.tags).Nonempty)

/-- More matching tags come first, then a lower latency, then a higher bandwidth. -/
def documentedKey (tags : Finset String) (c : Channel) : ℕᵒᵈ ×ₗ ℤ ×ₗ ℤᵒᵈ :=
  toLex (toDual (matching tags c), toLex (c.latencyMs, toDual c.bandwidthBps))

/-- The documented ranking. -/
def documented (strictChannelTags : Bool) (channels : List Channel)
    (connectionType : ConnectionType) (tags : Finset String) : List Channel :=
  sortBy (documentedKey tags) (eligible strictChannelTags channels connectionType tags)

/-- Where one channel comes before another in the list, both orders agree on them: with as many
matching tags they have the same latency, and in strict mode the one with more matching tags has the
higher latency, or the same one and no lower bandwidth (a higher one, if it comes later). -/
structure Agree (strictChannelTags : Bool) (tags : Finset String) (a b : Channel) : Prop where
  latency : matching tags a = matching tags b → a.latencyMs = b.latencyMs
  first : strictChannelTags = true → matching tags b < matching tags a →
    b.latencyMs < a.latencyMs ∨ a.latencyMs = b.latencyMs ∧ b.bandwidthBps ≤ a.bandwidthBps
  second : strictChannelTags = true → matching tags a < matching tags b →
    a.latencyMs < b.latencyMs ∨ a.latencyMs = b.latencyMs ∧ a.bandwidthBps < b.bandwidthBps

/-! ### The order of the code -/

section Rank

variable {strictChannelTags : Bool} {channels : List Channel} {connectionType : ConnectionType}
  {tags : Finset String}

/-- The key by which the code sorts in strict mode. -/
def strictKey (c : Channel) : ℤᵒᵈ ×ₗ ℤᵒᵈ := toLex (toDual c.latencyMs, toDual c.bandwidthBps)

/-- The key by which the code sorts otherwise. -/
def tagsKey (tags : Finset String) (c : Channel) : ℕᵒᵈ ×ₗ ℤᵒᵈ ×ₗ ℤᵒᵈ :=
  toLex (toDual (matching tags c), strictKey c)

/-- **The sorts are one sort** of the eligible channels. -/
theorem rankChannels_eq : rankChannels strictChannelTags channels connectionType tags =
    if strictChannelTags = true then
      sortBy strictKey (eligible strictChannelTags channels connectionType tags)
    else sortBy (tagsKey tags) (eligible strictChannelTags channels connectionType tags) := by
  unfold rankChannels eligible
  dsimp only
  rw [sortBy_sortBy]
  cases strictChannelTags with
  | true =>
      rw [if_pos rfl, if_pos rfl, filter_sortBy, List.filter_filter]
      refine congrArg (sortBy strictKey) (List.filter_congr fun c _ => ?_)
      simp [Bool.and_comm]
  | false =>
      rw [if_neg (by decide), if_neg (by decide), sortBy_sortBy]
      simp
      rfl

theorem strictKey_le {a b : Channel} : strictKey a ≤ strictKey b ↔
    b.latencyMs < a.latencyMs ∨ a.latencyMs = b.latencyMs ∧ b.bandwidthBps ≤ a.bandwidthBps := by
  simp [strictKey, Prod.Lex.toLex_le_toLex]

theorem tagsKey_le {a b : Channel} : tagsKey tags a ≤ tagsKey tags b ↔
    matching tags b < matching tags a ∨
      matching tags a = matching tags b ∧ strictKey a ≤ strictKey b := by
  simp [tagsKey, Prod.Lex.toLex_le_toLex]

theorem documentedKey_le {a b : Channel} : documentedKey tags a ≤ documentedKey tags b ↔
    matching tags b < matching tags a ∨ matching tags a = matching tags b ∧
      (a.latencyMs < b.latencyMs ∨
        a.latencyMs = b.latencyMs ∧ b.bandwidthBps ≤ a.bandwidthBps) := by
  simp [documentedKey, Prod.Lex.toLex_le_toLex]

/-- In strict mode both orders agree on two channels. -/
theorem agree_strict {a b : Channel} :
    (strictKey a ≤ strictKey b ↔ documentedKey tags a ≤ documentedKey tags b) ↔
      Agree true tags a b := by
  rw [strictKey_le, documentedKey_le]
  constructor
  · intro same
    refine ⟨fun eq => ?_, fun _ more => ?_, fun _ less => ?_⟩
    · omega
    · exact same.mpr (.inl more)
    · omega
  · rintro ⟨latency, first, second⟩
    rcases lt_trichotomy (matching tags a) (matching tags b) with less | eq | more
    · have slower := second rfl less
      omega
    · have same := latency eq
      omega
    · exact iff_of_true (first rfl more) (.inl more)

/-- Otherwise they differ where latencies do. -/
theorem agree_tags {a b : Channel} :
    (tagsKey tags a ≤ tagsKey tags b ↔ documentedKey tags a ≤ documentedKey tags b) ↔
      Agree false tags a b := by
  rw [tagsKey_le, strictKey_le, documentedKey_le]
  constructor
  · intro same
    refine ⟨fun eq => ?_, fun strict => (nomatch strict), fun strict => (nomatch strict)⟩
    omega
  · rintro ⟨latency, -, -⟩
    rcases eq_or_ne (matching tags a) (matching tags b) with eq | ne
    · have same := latency eq
      omega
    · simp [ne]

/-- **The documented order** is kept exactly when both orders agree on the channels. -/
theorem rankChannels_iff (strictChannelTags : Bool) (channels : List Channel)
    (connectionType : ConnectionType) (tags : Finset String) :
    rankChannels strictChannelTags channels connectionType tags =
        documented strictChannelTags channels connectionType tags ↔
      ∀ a b, [a, b].Sublist (eligible strictChannelTags channels connectionType tags) →
        Agree strictChannelTags tags a b := by
  rw [rankChannels_eq, documented]
  cases strictChannelTags with
  | true =>
      rw [if_pos rfl, sortBy_eq_iff]
      exact forall₂_congr fun a b => imp_congr_right fun _ => agree_strict
  | false =>
      rw [if_neg (by decide), sortBy_eq_iff]
      exact forall₂_congr fun a b => imp_congr_right fun _ => agree_tags

/-- A channel with one tag. -/
def exampleChannel (name : String) (latencyMs : ℤ) : Channel where
  channelId := name
  connectionType := .indirect
  bandwidthBps := 1000
  latencyMs
  tags := {"epoch"}

/-- **The slowest channel** comes first. -/
theorem slowest_first :
    rankChannels true [exampleChannel "fast" 10, exampleChannel "slow" 9000] .indirect {"epoch"} =
        [exampleChannel "slow" 9000, exampleChannel "fast" 10] ∧
      rankChannels true [exampleChannel "fast" 10, exampleChannel "slow" 9000] .indirect {"epoch"} ≠
        documented true [exampleChannel "fast" 10, exampleChannel "slow" 9000] .indirect
          {"epoch"} := by
  decide

end Rank

end Prism.Transport
