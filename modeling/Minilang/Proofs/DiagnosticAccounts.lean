import Mathlib.Data.Prod.Lex
import Mathlib.Order.OrderDual
import Minilang.Diagnostic.Bag

/-! Every report is accounted for. Reports come in through the filter, and the bag may be sorted at
any time. What is kept are the first of the distinct reports, as many as fit; all others are counted
as dropped or as suppressed. -/

namespace Minilang

namespace Diagnostic

/-- The reports that do not repeat an earlier one. -/
def firsts : List Diagnostic → List Diagnostic
  | [] => []
  | d :: rest => d :: (firsts rest).filter fun later => later.key ≠ d.key

/-- A report that comes last counts unless one like it came before. -/
theorem firsts_concat (reports : List Diagnostic) (d : Diagnostic) :
    firsts (reports ++ [d]) =
      firsts reports ++ if ∃ old ∈ reports, old.key = d.key then [] else [d] := by
  induction reports with
  | nil => simp [firsts]
  | cons report rest ih =>
    rw [List.cons_append, firsts, firsts, ih, List.filter_append, List.cons_append]
    by_cases same : report.key = d.key
    · by_cases more : ∃ old ∈ rest, old.key = d.key <;> simp [same, more]
    · have differ : d.key ≠ report.key := Ne.symm same
      by_cases more : ∃ old ∈ rest, old.key = d.key
      · simp [more]
      · simp [same, more, differ]

/-- A file, start and end, a severity of which the highest comes first, and a code. -/
abbrev Place := ℕ ×ₗ ℕ ×ₗ ℕ ×ₗ ℕᵒᵈ ×ₗ ℕ

def place (d : Diagnostic) : Place :=
  toLex (d.span.file.toNat, toLex (d.span.start.toNat, toLex (d.span.stop.toNat,
    toLex (OrderDual.toDual d.severity.level.toNat, d.code.number.toNat))))

theorem precedes_iff (x y : Diagnostic) : x.precedes y = true ↔ x.place ≤ y.place := by
  simp only [place, Prod.Lex.toLex_le_toLex, OrderDual.toDual_lt_toDual, OrderDual.toDual_inj,
    precedes, bne_iff_ne, ne_eq, ← UInt32.toNat_inj, ← UInt8.toNat_inj, UInt32.lt_iff_toNat_lt,
    UInt8.lt_iff_toNat_lt, UInt16.le_iff_toNat_le]
  split_ifs <;> simp only [decide_eq_true_eq] <;> omega

theorem precedes_trans (x y z : Diagnostic) (first : x.precedes y = true)
    (second : y.precedes z = true) : x.precedes z = true := by
  rw [precedes_iff] at first second ⊢
  exact first.trans second

theorem precedes_total (x y : Diagnostic) : (x.precedes y || y.precedes x) = true := by
  rw [Bool.or_eq_true, precedes_iff, precedes_iff]
  exact le_total x.place y.place

end Diagnostic

namespace Bag

theorem sort_perm (bag : Bag) : bag.sort.items.toList.Perm bag.items.toList :=
  List.mergeSort_perm _ _

theorem sort_ordered (bag : Bag) :
    bag.sort.items.toList.Pairwise fun x y => x.place ≤ y.place := by
  have sorted := List.pairwise_mergeSort Diagnostic.precedes_trans Diagnostic.precedes_total
    bag.items.toList
  exact sorted.imp (Diagnostic.precedes_iff _ _).mp

theorem sort_stable (bag : Bag) (place : Diagnostic.Place) :
    (bag.sort.items.toList.filter fun d => d.place = place) =
      bag.items.toList.filter fun d => d.place = place := by
  have level : (bag.items.toList.filter fun d => d.place = place).Pairwise
      fun x y => x.precedes y = true := by
    rw [List.pairwise_iff_forall_sublist]
    intro x y inside
    have both := fun d member => (List.mem_filter.mp (inside.subset (a := d) member)).2
    simp only [decide_eq_true_eq] at both
    rw [Diagnostic.precedes_iff, both x (by simp), both y (by simp)]
  have kept := List.sublist_mergeSort Diagnostic.precedes_trans Diagnostic.precedes_total level
    List.filter_sublist
  have inside := kept.filter fun d => d.place = place
  simp only [List.filter_filter, Bool.and_self] at inside
  exact (inside.eq_of_length (bag.sort_perm.symm.filter _).length_eq).symm

end Bag

namespace DistinctBag

/-- What is done with a filtered bag. -/
inductive Act where
  | report (d : Diagnostic)
  | sort

def Act.report? : Act → Option Diagnostic
  | report d => some d
  | sort => none

def perform (filter : DistinctBag) : Act → DistinctBag
  | .report d => filter.add d
  | .sort => { filter with bag := filter.bag.sort }

def performAll (filter : DistinctBag) (acts : List Act) : DistinctBag := acts.foldl perform filter

/-- Where every report of a list has gone. -/
structure Accounts (filter : DistinctBag) (reports : List Diagnostic) : Prop where
  kept : filter.bag.items.toList.Perm ((Diagnostic.firsts reports).take filter.bag.limit)
  dropped : filter.bag.dropped = (Diagnostic.firsts reports).length - filter.bag.limit
  suppressed : filter.suppressed + (Diagnostic.firsts reports).length = reports.length
  seen : ∀ key, filter.seen.contains key = true ↔ ∃ d ∈ reports, d.key = key

variable {filter : DistinctBag} {reports : List Diagnostic}

theorem accounts_ofLimit (limit : Int) : (ofLimit limit).Accounts [] where
  kept := by simp [ofLimit, Bag.ofLimit, Diagnostic.firsts]
  dropped := by simp [ofLimit, Bag.ofLimit, Diagnostic.firsts]
  suppressed := rfl
  seen := by simp [ofLimit]

theorem Accounts.isFull_iff (accounts : filter.Accounts reports) :
    filter.bag.isFull = true ↔ filter.bag.limit ≤ (Diagnostic.firsts reports).length := by
  have size := accounts.kept.length_eq
  rw [Array.length_toList, List.length_take] at size
  rw [Bag.isFull, size, beq_iff_eq]
  omega

theorem Accounts.add (accounts : filter.Accounts reports) (d : Diagnostic) :
    (filter.add d).Accounts (reports ++ [d]) := by
  have size := accounts.suppressed
  have distinct := Diagnostic.firsts_concat reports d
  rw [DistinctBag.add]
  split
  next known =>
    rw [if_pos ((accounts.seen d.key).mp known), List.append_nil] at distinct
    refine ⟨distinct ▸ accounts.kept, distinct ▸ accounts.dropped, ?_, fun key => ?_⟩
    · rw [distinct, List.length_append, List.length_singleton]
      dsimp only
      omega
    · rw [accounts.seen key]
      have old := (accounts.seen d.key).mp known
      simp only [List.mem_append, List.mem_singleton, or_and_right, exists_or, exists_eq_left]
      exact ⟨.inl, fun found => found.elim id fun same => same ▸ old⟩
  next fresh =>
    rw [if_neg (fun old => fresh ((accounts.seen d.key).mpr old))] at distinct
    have seen : ∀ key, (filter.seen.insert d.key).contains key = true ↔
        ∃ other ∈ reports ++ [d], other.key = key := by
      intro key
      simp only [Std.HashSet.contains_insert, Bool.or_eq_true, beq_iff_eq, accounts.seen key,
        List.mem_append, List.mem_singleton, or_and_right, exists_or, exists_eq_left]
      exact or_comm
    have total : filter.suppressed + (Diagnostic.firsts (reports ++ [d])).length =
        (reports ++ [d]).length := by
      rw [distinct, List.length_append, List.length_append, List.length_singleton]
      omega
    have dropped := accounts.dropped
    by_cases full : filter.bag.isFull = true
    · have filled := accounts.isFull_iff.mp full
      refine ⟨?_, ?_, total, seen⟩
      · rw [Bag.add, if_pos full, distinct, List.take_append_of_le_length filled]
        exact accounts.kept
      · rw [Bag.add, if_pos full, distinct, List.length_append, List.length_singleton]
        dsimp only
        omega
    · have room : (Diagnostic.firsts reports).length < filter.bag.limit := by
        rw [accounts.isFull_iff] at full
        omega
      refine ⟨?_, ?_, total, seen⟩
      · have kept := accounts.kept
        rw [List.take_of_length_le room.le] at kept
        rw [Bag.add, if_neg full, distinct, List.take_of_length_le
          (by rw [List.length_append, List.length_singleton]; exact room), Array.toList_push]
        exact kept.append_right [d]
      · rw [Bag.add, if_neg full, distinct, List.length_append, List.length_singleton]
        dsimp only
        omega

theorem Accounts.sort (accounts : filter.Accounts reports) :
    (filter.perform .sort).Accounts reports where
  kept := filter.bag.sort_perm.trans accounts.kept
  dropped := accounts.dropped
  suppressed := accounts.suppressed
  seen := accounts.seen

theorem Accounts.performAll (accounts : filter.Accounts reports) (acts : List Act) :
    (filter.performAll acts).Accounts (reports ++ acts.filterMap Act.report?) := by
  induction acts generalizing filter reports with
  | nil => simpa [DistinctBag.performAll] using accounts
  | cons act rest ih =>
    cases act with
    | report d =>
      have rest_ := ih (accounts.add d)
      rwa [List.append_assoc] at rest_
    | sort => exact ih accounts.sort

theorem limit_performAll (filter : DistinctBag) (acts : List Act) :
    (filter.performAll acts).bag.limit = filter.bag.limit := by
  induction acts generalizing filter with
  | nil => rfl
  | cons act rest ih =>
    refine (ih _).trans ?_
    cases act with
    | report d =>
      rw [perform, DistinctBag.add]
      split
      · rfl
      · rw [Bag.add]
        split <;> rfl
    | sort => rfl

/-- No report is lost silently. Whatever reports come in and whenever the bag is sorted, it holds
the first of the distinct reports, up to its limit, each as it first came in. What it holds, dropped
and suppressed adds up to all reports. It has errors exactly if something blocking is in it or
something was dropped. Sorted, it is in order, and reports of one place stand as they stood. -/
theorem reports_accounted (limit : Int) (acts : List Act) :
    let reports := acts.filterMap Act.report?
    let filter := (ofLimit limit).performAll acts
    let sorted := (filter.perform .sort).bag.items.toList
    filter.bag.limit = (if 1 ≤ limit ∧ limit ≤ 65535 then limit.toNat else 65535) ∧
      filter.bag.items.toList.Perm ((Diagnostic.firsts reports).take filter.bag.limit) ∧
      filter.bag.size + filter.bag.dropped + filter.suppressed = reports.length ∧
      (filter.bag.hasErrors = true ↔
        (∃ d ∈ filter.bag.items, Severity.error.level ≤ d.severity.level) ∨
          0 < filter.bag.dropped) ∧
      sorted.Perm filter.bag.items.toList ∧
      (sorted.Pairwise fun x y => x.place ≤ y.place) ∧
      ∀ place, (sorted.filter fun d => d.place = place) =
        filter.bag.items.toList.filter fun d => d.place = place := by
  intro reports filter sorted
  have accounts : filter.Accounts reports := by
    simpa using (accounts_ofLimit limit).performAll acts
  refine ⟨limit_performAll _ acts, accounts.kept, ?_, ?_, filter.bag.sort_perm,
    filter.bag.sort_ordered, filter.bag.sort_stable⟩
  · have size := accounts.kept.length_eq
    have dropped := accounts.dropped
    have suppressed := accounts.suppressed
    rw [Array.length_toList, List.length_take] at size
    rw [Bag.size]
    omega
  · rw [Bag.hasErrors, Bool.or_eq_true, decide_eq_true_eq, or_comm, Array.any_eq_true']
    simp only [Severity.isBlocking, decide_eq_true_eq]

end DistinctBag

end Minilang
