import Mathlib.Data.Nat.Find
import RecordCodec.Proofs.Agreement

set_option autoImplicit false

/-!
# The bound on nested calls

A call goes on to calls on smaller values, on its own value, and on parts of defaults. If it ends,
no routine is called on a value inside its own call on that value, and no default is converted
inside its own conversion. So calls are nested at most as deep as the value and all defaults
together are large, as often as there are routines. The bound of a routine is at least that.
-/
namespace RecordCodec

open Routine Run

namespace Routine

theorem total_append (a b : List Nat) : total (a ++ b) = total a + total b := by
  induction a with
  | nil => simp [total]
  | cons n rest ih => rw [List.cons_append, total, total, ih, Nat.add_assoc]

theorem total_map_le {α : Type} {xs : List α} {f g : α → Nat} (h : ∀ x ∈ xs, f x ≤ g x) :
    total (xs.map f) ≤ total (xs.map g) := by
  induction xs with
  | nil => exact Nat.le_refl _
  | cons x rest ih =>
    have tail := ih fun y mem => h y (List.mem_cons_of_mem _ mem)
    have head := h x List.mem_cons_self
    simp only [List.map_cons, total]
    omega

theorem total_map_add_le {α : Type} {xs : List α} {f g : α → Nat} {x : α} {n : Nat}
    (h : ∀ x ∈ xs, f x ≤ g x) (mem : x ∈ xs) (more : f x + n ≤ g x) :
    total (xs.map f) + n ≤ total (xs.map g) := by
  induction xs with
  | nil => cases mem
  | cons y rest ih =>
    have tail := total_map_le fun z memZ => h z (List.mem_cons_of_mem _ memZ)
    have head := h y List.mem_cons_self
    simp only [List.map_cons, total]
    rcases List.mem_cons.1 mem with rfl | mem
    · omega
    · have := ih (fun z memZ => h z (List.mem_cons_of_mem _ memZ)) mem
      omega

theorem total_map_one {α : Type} (xs : List α) : total (xs.map fun _ => 1) = xs.length := by
  induction xs with
  | nil => rfl
  | cons x rest ih => rw [List.map_cons, total, ih, List.length_cons, Nat.add_comm]

theorem total_flatMap {α β : Type} (f : α → List β) (cost : β → Nat) (xs : List α) :
    total ((xs.flatMap f).map cost) = total (xs.map fun x => total ((f x).map cost)) := by
  induction xs with
  | nil => rfl
  | cons x rest ih =>
    rw [List.flatMap_cons, List.map_append, total_append, ih, List.map_cons, total]

/-- The cost of those among some runs that end with less fuel than given. -/
noncomputable def spent {ι O : Type} (f : ι → Nat → Run O) (cost : ι → Nat) (xs : List ι)
    (n : Nat) : Nat :=
  open Classical in total (xs.map fun x => if ∃ i < n, ((f x i).run).isSome then cost x else 0)

section
variable {ι O : Type} {f : ι → Nat → Run O} {cost : ι → Nat} {xs : List ι}

theorem spent_mono {n m : Nat} (le : n ≤ m) : spent f cost xs n ≤ spent f cost xs m := by
  classical
  refine total_map_le fun x _ => ?_
  split
  case isTrue before =>
    obtain ⟨i, lt, ended⟩ := before
    exact Nat.le_of_eq (if_pos ⟨i, Nat.lt_of_lt_of_le lt le, ended⟩).symm
  case isFalse => exact Nat.zero_le _

theorem spent_le (n : Nat) : spent f cost xs n ≤ total (xs.map cost) := by
  classical
  refine total_map_le fun x _ => ?_
  split
  · exact Nat.le_refl _
  · exact Nat.zero_le _

/-- The first end of a run is paid by its cost. -/
theorem spent_add_cost_le (f : ι → Nat → Run O) (cost : ι → Nat) {x : ι} (mem : x ∈ xs)
    {i n : Nat} (lt : i < n)
    (ended : ((f x i).run).isSome) (first : ∀ i' < i, ¬((f x i').run).isSome) :
    spent f cost xs i + cost x ≤ spent f cost xs n := by
  classical
  refine total_map_add_le (fun y _ => ?_) mem ?_
  · split
    case isTrue before =>
      obtain ⟨i', lt', ended'⟩ := before
      exact Nat.le_of_eq (if_pos ⟨i', Nat.lt_trans lt' lt, ended'⟩).symm
    case isFalse => exact Nat.zero_le _
  · rw [if_neg fun ⟨i', lt', ended'⟩ => first i' lt' ended', if_pos ⟨i, lt, ended⟩, Nat.zero_add]

end

theorem Linked.exists_callBound {I O : Type} (r : Linked I O) (measure : Nat) :
    ∃ fuel, r.callBound measure = fuel + 1 :=
  Nat.exists_eq_add_one_of_ne_zero (Nat.mul_ne_zero (by omega) (Nat.succ_ne_zero _))

end Routine

section
variable {κ ι I O : Type} {run : Nat → κ → I → Run O} {measure : I → Nat} {keys : List κ}
  {convert : ι → Nat → Run O} {cost : ι → Nat} {defaults : List ι}

/-- How conversions nest: those of a key go on to smaller inputs, to the same input and to defaults,
and those of a default to inputs that are smaller than its cost. -/
structure Nesting (run : Nat → κ → I → Run O) (measure : I → Nat) (keys : List κ)
    (convert : ι → Nat → Run O) (cost : ι → Nat) (defaults : List ι) : Prop where
  zero : ∀ k v, (run 0 k v).run = none
  call : ∀ n m v, ∀ k ∈ keys,
    (∀ k' ∈ keys, ∀ w, measure w < measure v ∨ w = v → Below (run n k' w) (run m k' w)) →
    (∀ j ∈ defaults, Below (convert j n) (convert j m)) → Below (run (n + 1) k v) (run (m + 1) k v)
  default : ∀ n m, ∀ j ∈ defaults,
    (∀ k ∈ keys, ∀ v, measure v < cost j → Below (run n k v) (run m k v)) →
    Below (convert j n) (convert j m)

namespace Nesting

variable (h : Nesting run measure keys convert cost defaults)
include h

theorem mono_succ (n : Nat) {k : κ} (mem : k ∈ keys) (v : I) :
    Below (run n k v) (run (n + 1) k v) := by
  induction n generalizing k v with
  | zero => exact .of_none (h.zero k v)
  | succ n ih =>
    refine h.call n (n + 1) v k mem (fun k' mem' w _ => ih mem' w) fun j isDefault => ?_
    exact h.default n (n + 1) j isDefault fun k' mem' w _ => ih mem' w

theorem mono {n m : Nat} (le : n ≤ m) {k : κ} (mem : k ∈ keys) (v : I) :
    Below (run n k v) (run m k v) := by
  induction le with
  | refl => exact .refl _
  | step _ ih => exact ih.trans (h.mono_succ _ mem v)

end Nesting

theorem Routine.Run.Below.of_first {α : Type} {f : Nat → Run α} {n : Nat} {r : Run α}
    (h : ∀ i ≤ n, ((f i).run).isSome → (∀ i' < i, ¬((f i').run).isSome) →
      Below (f i) (f n) ∧ Below (f i) r) : Below (f n) r := by
  by_cases ended : ((f n).run).isSome
  case neg => exact .of_none (by simpa using ended)
  case pos =>
    have some : ∃ i, ((f i).run).isSome := ⟨n, ended⟩
    classical
    obtain ⟨toN, toR⟩ := h (Nat.find some) (Nat.find_min' some ended) (Nat.find_spec some)
      fun i' lt => Nat.find_min some lt
    obtain ⟨result, ran⟩ := Option.isSome_iff_exists.1 (Nat.find_spec some)
    intro result' ran'
    rw [← toN.unique ran ran']
    exact toR result ran

namespace Nesting

/-- Fuel for the input and for the defaults that end with less fuel than given, as often as there
are keys, and for those of the keys that end on the input itself. -/
noncomputable def enough (run : Nat → κ → I → Run O) (measure : I → Nat) (keys : List κ)
    (convert : ι → Nat → Run O) (cost : ι → Nat) (defaults : List ι) (n : Nat) (v : I) : Nat :=
  (measure v + spent convert cost defaults n) * (keys.length + 1) +
    spent (fun k i => run i k v) (fun _ => 1) keys n + 1

theorem room {a b d k : Nat} (lt : a < b) (le : d ≤ k) : a * (k + 1) + d + 1 ≤ b * (k + 1) := by
  have times : (a + 1) * (k + 1) ≤ b * (k + 1) := Nat.mul_le_mul_right _ lt
  rw [Nat.succ_mul] at times
  omega

variable (h : Nesting run measure keys convert cost defaults)
include h

theorem within_enough (n : Nat) {k : κ} (mem : k ∈ keys) (v : I) :
    Below (run n k v) (run (enough run measure keys convert cost defaults n v) k v) := by
  induction n using Nat.strongRecOn generalizing k v with
  | ind n ih =>
    cases n with
    | zero => exact .of_none (h.zero k v)
    | succ n =>
      have few : ∀ w i, spent (fun k i => run i k w) (fun _ => 1) keys i ≤
          keys.length := fun w i => total_map_one keys ▸ spent_le i
      have later : ∀ i ≤ n, spent convert cost defaults i ≤
          spent convert cost defaults (n + 1) :=
        fun i le => spent_mono (Nat.le_succ_of_le le)
      have upTo : ∀ i ≤ n, ∀ k' ∈ keys, ∀ w m,
          enough run measure keys convert cost defaults i w ≤ m →
          Below (run i k' w) (run m k' w) := fun i le k' mem' w m room =>
        (ih i (Nat.lt_succ_of_le le) mem' w).trans (h.mono room mem' w)
      refine h.call n _ v k mem (fun k' mem' w part => ?_) fun j isDefault => ?_
      · rcases part with smaller | rfl
        · refine upTo n (Nat.le_refl _) k' mem' w _ ?_
          have paid := room (Nat.add_lt_add_of_lt_of_le smaller (later n (Nat.le_refl _))) (few w n)
          exact Nat.le_trans paid (Nat.le_add_right _ _)
        · refine .of_first fun i le ended first => ⟨h.mono le mem' w, ?_⟩
          refine upTo i le k' mem' w _ ?_
          have before : i < n + 1 := Nat.lt_succ_of_le le
          have paid := spent_add_cost_le (fun k i => run i k w) (fun _ => 1) mem' before ended first
          have same := Nat.mul_le_mul_right (keys.length + 1)
            (Nat.add_le_add_left (later i le) (measure w))
          rw [enough, Nat.add_assoc]
          exact Nat.add_le_add same paid
      · refine .of_first fun i le ended first => ⟨?_, ?_⟩
        · exact h.default i n j isDefault fun k' mem' w _ => h.mono le mem' w
        · refine h.default i _ j isDefault fun k' mem' w smaller => upTo i le k' mem' w _ ?_
          have before : i < n + 1 := Nat.lt_succ_of_le le
          have paid := spent_add_cost_le convert cost isDefault before ended first
          have less : measure w + spent convert cost defaults i <
              measure v + spent convert cost defaults (n + 1) := by
            omega
          exact Nat.le_trans (room less (few w i)) (Nat.le_add_right _ _)

/-- A call that ends at all ends with fuel for the input and the costs of all defaults, as often as
there are keys. -/
theorem ends_iff {k : κ} (mem : k ∈ keys) (v : I) {bound : Nat}
    (large : (measure v + 1 + total (defaults.map cost)) * (keys.length + 1) ≤ bound)
    {result : Except Failure O} :
    (run bound k v).run = some result ↔ ∃ n, (run n k v).run = some result := by
  refine ⟨fun ran => ⟨bound, ran⟩, fun ⟨n, ran⟩ => ?_⟩
  have small : spent convert cost defaults n ≤
      total (defaults.map cost) := spent_le n
  have few : spent (fun k i => run i k v) (fun _ => 1) keys n ≤ keys.length :=
    total_map_one keys ▸ spent_le n
  have less := Nat.add_lt_add_of_lt_of_le (Nat.lt_succ_self (measure v)) small
  exact h.mono (Nat.le_trans (room less few) large) mem v _ (h.within_enough n mem v _ ran)

end Nesting
end

namespace Compile

open Direct

variable {I O : Type} {schema : Schema} {registry : Registry} {mode : Mode I O}

abbrev Opened (I O : Type) := Linked I O × List (Field × Converter)

def Finds (schema : Schema) (registry : Registry) (mode : Mode I O) (bound : Binding)
    (all : List (Opened I O)) (r : Linked I O) : Prop :=
  ∀ routine name config, bound routine name config → ∃ k ∈ all,
    r.callee? routine = some k.1 ∧ Serves schema registry mode k.1 name config

/-- Routines that only call one another. -/
def Closed (schema : Schema) (registry : Registry) (mode : Mode I O) (all : List (Opened I O)) :
    Prop :=
  ∀ k ∈ all, ∃ bound name config record,
    Made schema registry mode bound name config record k.2 k.1.code ∧
    Finds schema registry mode bound all k.1

theorem exists_total_le {α β ι : Type} (cost : ι → β → Nat) (size : ι → α → Nat)
    (holds : α → List β → Prop) (xs : List α)
    (h : ∀ x ∈ xs, ∃ found, holds x found ∧ ∀ i, total (found.map (cost i)) ≤ size i x) :
    ∃ all : List β, (∀ x ∈ xs, ∃ found, holds x found ∧ found ⊆ all) ∧
      (∀ y ∈ all, ∃ x ∈ xs, ∃ found, holds x found ∧ y ∈ found ∧ found ⊆ all) ∧
      ∀ i, total (all.map (cost i)) ≤ total (xs.map (size i)) := by
  induction xs with
  | nil =>
    exact ⟨[], fun _ mem => absurd mem List.not_mem_nil, fun _ mem => absurd mem List.not_mem_nil,
      fun _ => Nat.le_refl _⟩
  | cons x rest ih =>
    obtain ⟨found, ofX, small⟩ := h x List.mem_cons_self
    obtain ⟨all, ofRest, back, smallAll⟩ := ih fun y mem => h y (List.mem_cons_of_mem _ mem)
    have left : found ⊆ found ++ all := List.subset_append_left _ _
    have right : all ⊆ found ++ all := List.subset_append_right _ _
    refine ⟨found ++ all, ?_, fun y mem => ?_, fun i => ?_⟩
    · refine List.forall_mem_cons.2 ⟨⟨found, ofX, left⟩, fun y mem => ?_⟩
      obtain ⟨other, ofY, subset⟩ := ofRest y mem
      exact ⟨other, ofY, List.Subset.trans subset right⟩
    · rcases List.mem_append.1 mem with mem | mem
      · exact ⟨x, List.mem_cons_self, found, ofX, mem, left⟩
      · obtain ⟨z, memZ, other, ofZ, memOther, subset⟩ := back y mem
        exact ⟨z, List.mem_cons_of_mem _ memZ, other, ofZ, memOther, List.Subset.trans subset right⟩
    · have := small i
      have := smallAll i
      rw [List.map_append, total_append, List.map_cons, total]
      omega

def Opened.count (reach : Bool) (k : Opened I O) : Nat := if reach then k.1.code.reach else 1

/-- The routines that a routine calls, and that these call, are no more than its size says, and
their reaches no more than its reach. -/
theorem Serves.exists_closed {r : Linked I O} {name : String} {config : Config}
    (h : Serves schema registry mode r name config) :
    ∃ all, Closed schema registry mode all ∧ (∃ k ∈ all, k.1 = r) ∧
      ∀ reach, total (all.map (Opened.count reach)) ≤ if reach then r.reach else r.size := by
  induction h with
  | @intro r name config bound functional main mainBound codes found adopted size within ih =>
    have serves : ∀ code ∈ r.session, ∀ name config, bound code.name name config →
        Serves schema registry mode { r with code } name config := fun code mem _ _ isBound =>
      .intro bound functional mem isBound codes found adopted size within
    -- the routines of the session itself
    obtain ⟨own, ofOwn, backOwn, smallOwn⟩ := exists_total_le Opened.count
      (fun reach (code : Code I O) => if reach then code.reach else 1)
      (fun code listed => ∃ name config record parts,
        Made schema registry mode bound name config record parts code ∧
          listed = [({ r with code }, parts)])
      r.session (fun code mem => by
        obtain ⟨name, config, d, isBound, draft, lowers⟩ := codes code mem
        obtain ⟨record, parts, made⟩ := draft.made lowers
        exact ⟨_, ⟨name, config, record, parts, made, rfl⟩, fun _ => Nat.le_refl _⟩)
    -- those that the routines taken over call
    obtain ⟨others, ofOthers, backOthers, smallOthers⟩ := exists_total_le Opened.count
      (fun reach (e : String × Linked I O) => if reach then e.2.reach else e.2.size)
      (fun e listed => Closed schema registry mode listed ∧ ∀ name config, bound e.1 name config →
        Assoc.get? e.1 r.environment = some e.2 → ∃ k ∈ listed, k.1 = e.2)
      r.environment (fun e mem => by
        by_cases used : ∃ name config, bound e.1 name config ∧
          Assoc.get? e.1 r.environment = some e.2
        case neg =>
          refine ⟨[], ⟨fun _ mem => absurd mem List.not_mem_nil, ?_⟩, fun _ => Nat.zero_le _⟩
          exact fun name config isBound present => absurd ⟨name, config, isBound, present⟩ used
        case pos =>
          obtain ⟨name', config', isBound, present⟩ := used
          obtain ⟨listed, closed, there, small⟩ := ih _ _ _ _ isBound present
          exact ⟨listed, ⟨closed, fun _ _ _ _ => there⟩, small⟩)
    have left : own ⊆ own ++ others := List.subset_append_left _ _
    have right : others ⊆ own ++ others := List.subset_append_right _ _
    have opened : ∀ code ∈ r.session, ∃ k ∈ own ++ others, k.1 = { r with code } := by
      intro code mem
      obtain ⟨_, ⟨_, _, _, parts, _, rfl⟩, subset⟩ := ofOwn code mem
      exact ⟨_, left (subset List.mem_cons_self), rfl⟩
    have itself : Linked.mk r.code r.session r.environment r.stamp r.size r.reach = r := by
      cases r
      rfl
    obtain ⟨start, inAll, isStart⟩ := opened r.code main
    refine ⟨own ++ others, fun k mem => ?_, ⟨start, inAll, isStart.trans itself⟩, fun reach => ?_⟩
    · rcases List.mem_append.1 mem with mem | mem
      · obtain ⟨code, -, _, ⟨name, config, record, parts, made, rfl⟩, mem, -⟩ := backOwn k mem
        obtain rfl := List.mem_singleton.1 mem
        refine ⟨bound, name, config, record, made, fun routine name config isBound => ?_⟩
        rcases callee?_of_found { r with code } (found _ _ _ isBound) with
          ⟨code', mem', isNamed, isCallee⟩ | ⟨callee, present, isCallee⟩
        · obtain ⟨k', inAll, same⟩ := opened code' mem'
          exact ⟨k', inAll, same ▸ isCallee, same ▸ serves code' mem' _ _ (isNamed ▸ isBound)⟩
        · obtain ⟨listed, ⟨-, there⟩, subset⟩ := ofOthers _ (Assoc.mem_of_get? present)
          obtain ⟨k', inListed, rfl⟩ := there name config isBound present
          exact ⟨k', right (subset inListed), isCallee, adopted _ _ _ _ isBound present⟩
      · obtain ⟨e, -, listed, ⟨closed, -⟩, inListed, subset⟩ := backOthers k mem
        obtain ⟨bound, name, config, record, made, callees⟩ := closed k inListed
        refine ⟨bound, name, config, record, made, fun routine name config isBound => ?_⟩
        obtain ⟨k', inListed', isCallee, served⟩ := callees routine name config isBound
        exact ⟨k', right (subset inListed'), isCallee, served⟩
    · have mine := smallOwn reach
      have theirs := smallOthers reach
      rw [List.map_append, total_append]
      cases reach with
      | true => exact Nat.le_trans (Nat.add_le_add mine theirs) within
      | false => exact Nat.le_trans (Nat.add_le_add (total_map_one r.session ▸ mine) theirs) size

section
variable {all : List (Opened I O)}

def partsOf (all : List (Opened I O)) : List (Linked I O × Field × Converter) :=
  all.flatMap fun k => k.2.map fun e => (k.1, e)

variable (locality : mode.Locality schema registry)

def Mode.Locality.cost (f : Field) : Nat :=
  ((locality.default? f).map fun v => locality.measure v + 1).getD 0

def Mode.Locality.convertDefault (j : Linked I O × Field × Converter) (fuel : Nat) : Run O :=
  match locality.default? j.2.1 with
  | some v => locality.convert (j.1.calls fuel) j.2.2 v
  | none => ExceptT.mk none

include locality in
/-- Calls by two names of one record are calls of one routine. -/
theorem Finds.calls_below {bound : Binding} {r : Linked I O}
    (h : Finds schema registry mode bound all r) {routine routine' name : String} {config : Config}
    (known : bound routine name config) (known' : bound routine' name config) :
    ∃ k ∈ all, ∀ n m w, Below (k.1.callWithin n w) (k.1.callWithin m w) →
      Below (r.calls n routine w) (r.calls m routine' w) := by
  obtain ⟨k, inAll, isCallee, serves⟩ := h routine name config known
  obtain ⟨k', -, isCallee', serves'⟩ := h routine' name config known'
  refine ⟨k, inAll, fun n m w below => ?_⟩
  rw [Linked.calls_of_callee n isCallee, Linked.calls_of_callee m isCallee',
    ← serves.callWithin_eq locality m serves']
  exact below

theorem Closed.nesting (closed : Closed schema registry mode all) :
    Nesting (fun n (k : Opened I O) v => k.1.callWithin n v) locality.measure all
      locality.convertDefault (fun j => locality.cost j.2.1) (partsOf all) where
  zero _ _ := rfl
  call n m v k mem same defaults := by
    obtain ⟨bound, name, config, record, made, callees⟩ := closed k mem
    refine locality.routine v made made (fun routine routine' name config known known' w part => ?_)
      fun f c c' w inParts inParts' given => ?_
    · obtain ⟨k', inAll, below⟩ := callees.calls_below locality known known'
      exact below n m w (same k' inAll w part)
    · have inDefaults : (k.1, f, c) ∈ partsOf all :=
        List.mem_flatMap.2 ⟨k, mem, List.mem_map_of_mem inParts⟩
      have first := defaults _ inDefaults
      simp only [Mode.Locality.convertDefault, given] at first
      refine first.trans (locality.part _ (made.compiled f c inParts) (made.compiled f c' inParts')
        (fun routine routine' name config known known' w _ => ?_) (Nat.lt_succ_self _))
      obtain ⟨_, -, below⟩ := callees.calls_below locality known known'
      exact below m m w (.refl _)
  default n m j mem smaller := by
    obtain ⟨k, inAll, inParts⟩ := List.mem_flatMap.1 mem
    obtain ⟨⟨f, c⟩, isPart, rfl⟩ := List.mem_map.1 inParts
    obtain ⟨bound, name, config, record, made, callees⟩ := closed k inAll
    simp only [Mode.Locality.convertDefault, Mode.Locality.cost] at smaller ⊢
    cases given : locality.default? f with
    | none => exact .refl _
    | some v =>
      rw [given] at smaller
      refine locality.part _ (made.compiled f c isPart) (made.compiled f c isPart)
        (fun routine routine' name config known known' w less => ?_) (Nat.lt_succ_self _)
      obtain ⟨k', inAll, below⟩ := callees.calls_below locality known known'
      exact below n m w (smaller k' inAll w less)

theorem Closed.total_cost (closed : Closed schema registry mode all) :
    total ((partsOf all).map fun j => locality.cost j.2.1) =
      total (all.map fun k => k.1.code.reach) := by
  rw [partsOf, total_flatMap]
  refine congrArg total (List.map_congr_left fun k mem => ?_)
  obtain ⟨bound, name, config, record, made, -⟩ := closed k mem
  rw [(Draft.lower_eq_ok made.lowers).2, locality.reach, List.map_map]
  rfl

/-- What comes of a call with any fuel comes of it within the bound of the routine. -/
theorem Serves.callBound_iff {r : Linked I O} {name : String} {config : Config}
    (h : Serves schema registry mode r name config) (v : I) {result : Except Failure O} :
    (r.callWithin (r.callBound (locality.measure v)) v).run = some result ↔
      ∃ n, (r.callWithin n v).run = some result := by
  obtain ⟨all, closed, ⟨k, inAll, rfl⟩, small⟩ := h.exists_closed
  refine (closed.nesting locality).ends_iff inAll v ?_
  have reach := small true
  have size : total (all.map fun _ => 1) ≤ k.1.size := small false
  rw [closed.total_cost locality, Linked.callBound]
  rw [total_map_one] at size
  exact Nat.mul_le_mul (Nat.add_le_add_left reach _) (Nat.succ_le_succ size)

end

namespace Serves

variable {config : Config} {name : String}

/-- What comes of a decoder is what comes of the direct interpretation, with any fuel. -/
theorem call_decode_iff (declarations : schema.Declared) {r : Decoder}
    (h : Serves schema .builtin .decoding r name config) (v : Json)
    {result : Except Failure Instance} :
    (Decoder.call r v).run = some result ↔
      ∃ fuel, (Direct.decode schema .builtin fuel name config v).run = some result := by
  refine (h.callBound_iff (Mode.decodingLocality declarations .builtin) v).trans ?_
  simp only [h.callWithin_decode Registry.keepsAny_builtin]

theorem call_encode_iff (declarations : schema.Declared) {r : Encoder}
    (h : Serves schema .builtin .encoding r name config) (v : Instance)
    {result : Except Failure Json} :
    (Encoder.call r v).run = some result ↔
      ∃ fuel, (Direct.encode schema .builtin fuel name config v).run = some result := by
  refine (h.callBound_iff (Mode.encodingLocality declarations .builtin) v).trans ?_
  simp only [h.callWithin_encode Registry.keepsAny_builtin declarations]

theorem call_eq (locality : mode.Locality schema registry) {r r' : Linked I O}
    (h : Serves schema registry mode r name config)
    (h' : Serves schema registry mode r' name config) (v : I) :
    r.callWithin (r.callBound (locality.measure v)) v =
      r'.callWithin (r'.callBound (locality.measure v)) v := by
  refine Option.ext fun result => ?_
  change (r.callWithin _ v).run = some result ↔ (r'.callWithin _ v).run = some result
  rw [h.callBound_iff locality, h'.callBound_iff locality]
  simp only [h.callWithin_eq locality _ h']

end Serves
end Compile
end RecordCodec
