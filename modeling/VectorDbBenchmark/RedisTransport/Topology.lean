import Mathlib.Data.Prod.Lex
import Mathlib.Data.String.Basic
import VectorDbBenchmark.Kit.Fallible
import VectorDbBenchmark.Kit.Ordered
import VectorDbBenchmark.Kit.Text
import VectorDbBenchmark.Kit.Tiling
import VectorDbBenchmark.Redis.Value

/-!
# The slot map of a cluster

`parse_topology` and `topology` of `src/redis_transport.rs`.  A `CLUSTER SLOTS` reply is accepted
when its ranges are a tiling of the slots.  The conversions of the client library are parameters.
-/

namespace VectorDbBenchmark.RedisTransport

open Kit Redis

/-- `redis::from_redis_value` at the two types that are read. -/
structure Conversions where
  u16 : Value → Except String UInt16
  string : Value → Except String String

/-- A 16-bit integer and a bulk string are read as what they are. -/
structure Conversions.Documented (conv : Conversions) : Prop where
  u16_int (n : UInt16) : conv.u16 (.int (Int64.ofNat n.toNat)) = .ok n
  string_bulk (s : String) : conv.string (.bulkString (utf8Bytes s)) = .ok s

structure SlotRange where
  start : UInt16
  stop : UInt16
  host : String
  port : UInt16
  id : String
deriving DecidableEq

/-- How many slots a cluster has. -/
def slots : ℕ := 16384

namespace SlotRange

/-- The primary has a host, a port and an id. -/
def Named (r : SlotRange) : Prop := r.host ≠ "" ∧ r.port ≠ 0 ∧ r.id ≠ ""

def InBounds (r : SlotRange) : Prop := r.start ≤ r.stop ∧ r.stop.toNat < slots

instance (r : SlotRange) : Decidable r.Named := inferInstanceAs (Decidable (_ ∧ _))

instance (r : SlotRange) : Decidable r.InBounds := inferInstanceAs (Decidable (_ ∧ _))

def holds (slot : ℕ) (r : SlotRange) : Bool :=
  Kit.holds (fun r : SlotRange ↦ r.start.toNat) (fun r ↦ r.stop.toNat) slot r

end SlotRange

section Code

variable (conv : Conversions)

/-- One row of the reply. -/
def slotRange : Value → Except String SlotRange
  | .array (start :: stop :: .array (host :: port :: id :: _) :: _) => do
    let range : SlotRange :=
      { start := ← conv.u16 start
        stop := ← conv.u16 stop
        host := ← conv.string host
        port := ← conv.u16 port
        id := ← conv.string id }
    if range.host = "" ∨ range.id = "" ∨ range.port = 0 ∨ range.stop < range.start ∨
        slots ≤ range.stop.toNat then
      .error "Invalid cluster primary or slot bounds"
    else .ok range
  | .array (_ :: _ :: .array _ :: _) => .error "Missing primary identity"
  | .array (_ :: _ :: _ :: _) => .error "Invalid primary"
  | .array _ => .error "Missing primary in slot range"
  | _ => .error "Invalid slot range"

/-- The slot after the ranges, each of which starts where the one before it ends. -/
def nextSlot : ℕ → List SlotRange → Except String ℕ :=
  List.foldlM fun next r ↦
    if r.start.toNat ≠ next then .error "Incomplete or overlapping cluster slot map"
    else .ok (r.stop.toNat + 1)

def parseTopology : Value → Except String (List SlotRange)
  | .array rows => do
    let ranges ← rows.mapM (slotRange conv)
    let ranges := sortByKey (·.start.toNat) ranges
    let next ← nextSlot 0 ranges
    if next ≠ slots then .error "Incomplete cluster slot coverage"
    else .ok ranges
  | _ => .error "CLUSTER SLOTS must return ranges"

def ensureSameTopology (before after : List SlotRange) : Except String Unit :=
  if before ≠ after then .error "Cluster topology changed during prefix scan" else .ok ()

/-- The primaries of the ranges, each once, in the order of a `BTreeSet`. -/
def primaries (ranges : List SlotRange) : List (String × UInt16) :=
  sortByKey (fun p ↦ toLex (p.1, p.2.toNat)) (distinct (ranges.map fun r ↦ (r.host, r.port)))

/-- What the servers reply while the topology is read. -/
structure TopologyReplies where
  slots : Except String Value
  /-- `CLUSTER NODES` of one primary. -/
  nodes : String → UInt16 → Except String Value
  slotsAfter : Except String Value

/-- An annotation of a migration that is on its way. -/
def migrates (nodes : String) : Bool :=
  containsSub "->-".toList nodes.toList || containsSub "-<-".toList nodes.toList

def topology (replies : TopologyReplies) : Except String (List SlotRange) := do
  let value ← replies.slots
  let ranges ← parseTopology conv value
  (primaries ranges).forM fun p ↦ do
    let value ← replies.nodes p.1 p.2
    let nodes ← conv.string value
    if migrates nodes then .error "Cluster slot migration prevents a stable prefix scan"
    else .ok ()
  let after ← replies.slotsAfter
  let rangesAfter ← parseTopology conv after
  ensureSameTopology ranges rangesAfter
  .ok ranges

end Code

/-! ## Well-shaped replies -/

/-- A row with more about its primary, and with replicas. -/
structure SlotRow where
  range : SlotRange
  metadata : List Value
  replicas : List Value

def SlotRow.value (row : SlotRow) : Value :=
  .array (.int (Int64.ofNat row.range.start.toNat) :: .int (Int64.ofNat row.range.stop.toNat) ::
    .array (.bulkString (utf8Bytes row.range.host) :: .int (Int64.ofNat row.range.port.toNat) ::
      .bulkString (utf8Bytes row.range.id) :: row.metadata) :: row.replicas)

def reply (rows : List SlotRow) : Value := .array (rows.map SlotRow.value)

section Accepted

variable {conv : Conversions} {rows : List SlotRow} {ranges : List SlotRange}

theorem slotRange_value (hconv : conv.Documented) (row : SlotRow) :
    slotRange conv row.value =
      if row.range.Named ∧ row.range.InBounds then .ok row.range
      else .error "Invalid cluster primary or slot bounds" := by
  rw [SlotRow.value, slotRange, hconv.u16_int, hconv.u16_int, hconv.string_bulk, hconv.u16_int,
    hconv.string_bulk]
  simp only [ok_bind]
  rw [← ite_not]
  refine if_congr ?_ rfl rfl
  have hstart : ¬row.range.stop < row.range.start ↔ row.range.start ≤ row.range.stop :=
    UInt16.not_lt
  have hstop : ¬slots ≤ row.range.stop.toNat ↔ row.range.stop.toNat < slots := not_le
  rw [SlotRange.Named, SlotRange.InBounds]
  tauto

theorem nextSlot_eq_ok {next n : ℕ} :
    nextSlot next ranges = .ok n ↔
      Tiles (fun r : SlotRange ↦ r.start.toNat) (fun r ↦ r.stop.toNat) next ranges n := by
  induction ranges generalizing next with
  | nil => exact Except.ok.injEq next n ▸ Iff.rfl
  | cons r ranges ih =>
      rw [nextSlot, List.foldlM_cons, Tiles]
      by_cases h : r.start.toNat = next
      · rw [if_neg (not_not_intro h), ok_bind]
        exact ih.trans (and_iff_right h).symm
      · rw [if_pos h, error_bind]
        exact iff_of_false (fun herror ↦ by cases herror) fun htiles ↦ h htiles.1

/-- The rows are read when each has a named primary and bounds, and as they are. -/
theorem mapM_slotRange (hconv : conv.Documented) :
    (rows.map SlotRow.value).mapM (slotRange conv) = .ok ranges ↔
      (∀ row ∈ rows, row.range.Named ∧ row.range.InBounds) ∧ ranges = rows.map SlotRow.range := by
  rw [mapM_eq_ok, List.forall₂_map_left_iff]
  simp only [slotRange_value hconv]
  induction rows generalizing ranges with
  | nil =>
      rw [List.forall₂_nil_left_iff]
      exact ⟨fun h ↦ ⟨fun _ hrow ↦ (List.not_mem_nil hrow).elim, h⟩, And.right⟩
  | cons row rows ih =>
      rw [List.forall₂_cons_left_iff, List.forall_mem_cons, List.map_cons]
      constructor
      · rintro ⟨r, rs, hr, hrs, rfl⟩
        split_ifs at hr with hrow
        cases hr
        obtain ⟨hrows, rfl⟩ := ih.mp hrs
        exact ⟨⟨hrow, hrows⟩, rfl⟩
      · rintro ⟨⟨hrow, hrows⟩, rfl⟩
        exact ⟨row.range, _, if_pos hrow, ih.mpr ⟨hrows, rfl⟩, rfl⟩

/-- What is accepted, and as what. -/
theorem parseTopology_eq_ok (hconv : conv.Documented) :
    parseTopology conv (reply rows) = .ok ranges ↔
      (∀ row ∈ rows, row.range.Named ∧ row.range.InBounds) ∧
      ranges = sortByKey (·.start.toNat) (rows.map SlotRow.range) ∧
      Tiles (fun r : SlotRange ↦ r.start.toNat) (fun r ↦ r.stop.toNat) 0 ranges slots := by
  rw [reply, parseTopology, bind_eq_ok]
  simp only [mapM_slotRange hconv]
  constructor
  · rintro ⟨_, ⟨hrows, rfl⟩, h⟩
    obtain ⟨next, hnext, h⟩ := bind_eq_ok.mp h
    split_ifs at h with hslots
    cases h
    rw [not_not] at hslots
    exact ⟨hrows, rfl, nextSlot_eq_ok.mp (hslots ▸ hnext)⟩
  · rintro ⟨hrows, rfl, htiles⟩
    refine ⟨_, ⟨hrows, rfl⟩, ?_⟩
    rw [nextSlot_eq_ok.mpr htiles, ok_bind]
    exact if_neg (not_not_intro rfl)

theorem countP_sortByKey (slot : ℕ) (ranges : List SlotRange) :
    (sortByKey (·.start.toNat) ranges).countP (·.holds slot) = ranges.countP (·.holds slot) :=
  (perm_sortByKey _ ranges).countP_eq _

/-- The sorted ranges of rows with bounds are a tiling when every slot is in one of them. -/
theorem tiles_sortByKey_iff (hbounds : ∀ r ∈ ranges, r.InBounds) :
    Tiles (fun r : SlotRange ↦ r.start.toNat) (fun r ↦ r.stop.toNat) 0
        (sortByKey (·.start.toNat) ranges) slots ↔
      ∀ slot < slots, ranges.countP (·.holds slot) = 1 := by
  have hle : ∀ r ∈ sortByKey (·.start.toNat) ranges, r.start.toNat ≤ r.stop.toNat :=
    fun r hr ↦ UInt16.le_iff_toNat_le.mp (hbounds r (mem_sortByKey.mp hr)).1
  have hlt : ∀ r ∈ sortByKey (·.start.toNat) ranges, r.stop.toNat < slots :=
    fun r hr ↦ (hbounds r (mem_sortByKey.mp hr)).2
  rw [tiles_zero_iff (pairwise_sortByKey _ ranges) hle hlt]
  refine forall₂_congr fun slot _ ↦ ?_
  rw [← countP_sortByKey slot ranges]
  exact Iff.rfl

/-- A reply is accepted when every range has a named primary and lies within the slots, and every
slot is in exactly one range; the result is then the ranges in the order of their starts. -/
theorem parseTopology_isOk_iff (hconv : conv.Documented) (rows : List SlotRow) :
    ((∃ ranges, parseTopology conv (reply rows) = .ok ranges) ↔
      (∀ row ∈ rows, row.range.Named ∧ row.range.InBounds) ∧
        ∀ slot < slots, rows.countP (·.range.holds slot) = 1) ∧
    ∀ ranges, parseTopology conv (reply rows) = .ok ranges →
      ranges.Perm (rows.map SlotRow.range) ∧
        ranges.Pairwise fun r r' ↦ r.start.toNat ≤ r'.start.toNat := by
  have hmap : ∀ slot, (rows.map SlotRow.range).countP (·.holds slot) =
      rows.countP (·.range.holds slot) := fun slot ↦ List.countP_map
  constructor
  · simp only [parseTopology_eq_ok hconv, exists_and_left, exists_eq_left]
    refine and_congr_right fun hrows ↦ ?_
    rw [tiles_sortByKey_iff (List.forall_mem_map.mpr fun row hrow ↦ (hrows row hrow).2)]
    simp only [hmap]
  · intro ranges h
    obtain ⟨-, rfl, -⟩ := (parseTopology_eq_ok hconv).mp h
    exact ⟨perm_sortByKey _ _, pairwise_sortByKey _ _⟩

/-- Conversions of the two forms that are read here. -/
def shapedConversions : Conversions where
  u16
    | .int n =>
      if 0 ≤ n.toInt ∧ n.toInt < 65536 then .ok (UInt16.ofNat n.toInt.toNat)
      else .error "Response type not convertible"
    | _ => .error "Response type not convertible"
  string
    | .bulkString b => (fromUtf8 b).elim (.error "Response type not convertible") .ok
    | _ => .error "Response type not convertible"

theorem shapedConversions_documented : shapedConversions.Documented where
  u16_int n := by
    have hn : n.toNat < 65536 := n.toNat_lt
    have hint : (Int64.ofNat n.toNat).toInt = n.toNat := Int64.toInt_ofNat_of_lt (by omega)
    simp only [shapedConversions, hint]
    rw [if_pos ⟨by omega, by omega⟩, Int.toNat_natCast, UInt16.ofNat_toNat]
  string_bulk s := by
    simp only [shapedConversions, fromUtf8_utf8Bytes]
    rfl

/-- A row for a primary at that port. -/
def rowAt (start stop port : UInt16) : SlotRow := ⟨⟨start, stop, "10.0.0.1", port, "a1"⟩, [], []⟩

/-- Two halves, the upper one first. -/
theorem parseTopology_isOk_halves :
    ∃ ranges, parseTopology shapedConversions
      (reply [rowAt 8192 16383 7001, rowAt 0 8191 7000]) = .ok ranges := by
  refine (parseTopology_isOk_iff shapedConversions_documented _).1.mpr ⟨by decide, ?_⟩
  intro slot hslot
  have hslot' : slot ≤ 16383 := Nat.le_of_lt_succ hslot
  rw [List.countP_cons, List.countP_singleton]
  simp only [SlotRange.holds, holds_iff, rowAt, UInt16.reduceToNat]
  split_ifs <;> omega

theorem parseTopology_ne_ok_of_not_inBounds (row : SlotRow) {rows : List SlotRow}
    (hrow : row ∈ rows) (hbounds : ¬row.range.InBounds) :
    ¬∃ ranges, parseTopology shapedConversions (reply rows) = .ok ranges := by
  rintro ⟨ranges, h⟩
  exact hbounds (((parseTopology_eq_ok shapedConversions_documented).mp h).1 row hrow).2

/-- All primaries are named and each slot is in one of the ranges. -/
def NamedOnce (rows : List SlotRow) : Prop :=
  (∀ row ∈ rows, row.range.Named) ∧ ∀ slot < slots, rows.countP (·.range.holds slot) = 1

/-- A range that goes on after the last slot is refused, and so is one that ends before it
starts. -/
theorem parseTopology_past_last :
    (NamedOnce [rowAt 0 20000 7000] ∧
      ¬∃ ranges, parseTopology shapedConversions (reply [rowAt 0 20000 7000]) = .ok ranges) ∧
    NamedOnce [rowAt 0 16383 7000, rowAt 5 4 7001] ∧
      ¬∃ ranges, parseTopology shapedConversions
        (reply [rowAt 0 16383 7000, rowAt 5 4 7001]) = .ok ranges := by
  refine ⟨⟨⟨by decide, fun slot hslot ↦ ?_⟩, ?_⟩, ⟨by decide, fun slot hslot ↦ ?_⟩, ?_⟩
  · have hslot' : slot ≤ 16383 := Nat.le_of_lt_succ hslot
    rw [List.countP_singleton]
    simp only [SlotRange.holds, holds_iff, rowAt, UInt16.reduceToNat]
    split_ifs
    · rfl
    · omega
  · exact parseTopology_ne_ok_of_not_inBounds (rowAt 0 20000 7000) (by simp) (by decide)
  · have hslot' : slot ≤ 16383 := Nat.le_of_lt_succ hslot
    rw [List.countP_cons, List.countP_singleton]
    simp only [SlotRange.holds, holds_iff, rowAt, UInt16.reduceToNat]
    split_ifs <;> omega
  · exact parseTopology_ne_ok_of_not_inBounds (rowAt 5 4 7001) (by simp) (by decide)

end Accepted

end VectorDbBenchmark.RedisTransport
