import RecordCodec.Proofs.Direct
import RecordCodec.Proofs.Execution

set_option autoImplicit false

/-!
# More fuel

A run that gives a result gives the same one with more fuel. This goes through every way in which
conversions are put together: a part may be replaced by one that has all its results.
-/
namespace RecordCodec

open Routine

namespace Routine.Run

variable {α β : Type}

/-- Whatever comes of the first run comes of the second. -/
def Below (r r' : Run α) : Prop := ∀ result, r.run = some result → r'.run = some result

namespace Below

variable {r r' r'' : Run α}

theorem refl (r : Run α) : Below r r := fun _ h => h

theorem trans (first : Below r r') (second : Below r' r'') : Below r r'' :=
  fun result h => second result (first result h)

theorem of_none (h : r.run = none) : Below r r' := by
  intro result given
  rw [h] at given
  cases given

theorem unique (h : Below r r') {result result' : Except Failure α} (ran : r.run = some result)
    (ran' : r'.run = some result') : result = result' := by
  have same := (h result ran).symm.trans ran'
  exact Option.some.inj same

theorem bind {f f' : α → Run β} (first : Below r r') (next : ∀ a, Below (f a) (f' a)) :
    Below (r >>= f) (r' >>= f') := by
  intro result h
  rw [bind_run] at h ⊢
  cases ran : r.run with
  | none =>
    rw [ran] at h
    cases h
  | some ending =>
    rw [ran] at h
    rw [first ending ran]
    cases ending with
    | ok a => exact next a result h
    | error e => exact h

theorem mapError (f : Failure → Failure) (h : Below r r') :
    Below (r.mapError f) (r'.mapError f) := by
  intro result given
  change r.run.map (Except.mapError f) = _ at given
  change r'.run.map (Except.mapError f) = _
  obtain ⟨ending, ran, rfl⟩ := Option.map_eq_some_iff.1 given
  rw [h ending ran]
  rfl

theorem ite {p : Prop} [Decidable p] {s s' : Run α} (yes : Below r r') (no : Below s s') :
    Below (if p then r else s) (if p then r' else s') := by
  split
  · exact yes
  · exact no

end Below
end Routine.Run

namespace Converter

open Run

section Decoding
variable {f g : Decode}

theorem decodeItems_below (index : Nat) {vs : List Json} (h : ∀ v ∈ vs, Below (f v) (g v)) :
    Below (decodeItems f index vs) (decodeItems g index vs) := by
  induction vs generalizing index with
  | nil => exact .refl _
  | cons v rest ih =>
    refine .bind ((h v List.mem_cons_self).mapError _) fun first => ?_
    exact .bind (ih _ fun w mem => h w (List.mem_cons_of_mem _ mem)) fun others => .refl _

theorem decodeParts_below (index : Nat) {α : Type} {xs : List α} {f g : α → Decode} {vs : List Json}
    (h : ∀ x ∈ xs, ∀ v ∈ vs, Below (f x v) (g x v)) :
    Below (decodeParts index (xs.map f) vs) (decodeParts index (xs.map g) vs) := by
  induction xs generalizing index vs with
  | nil => exact .refl _
  | cons x xs ih =>
    cases vs with
    | nil => exact .refl _
    | cons v rest =>
      refine .bind ((h x List.mem_cons_self v List.mem_cons_self).mapError _) fun first => ?_
      refine .bind (ih _ fun y memY w mem => ?_) fun others => .refl _
      exact h y (List.mem_cons_of_mem _ memY) w (List.mem_cons_of_mem _ mem)

theorem decodeTuple_below {α : Type} {xs : List α} {f g : α → Decode} {v : Json}
    (h : ∀ x ∈ xs, ∀ vs, listItems? v = some vs → ∀ w ∈ vs, Below (f x w) (g x w)) :
    Below (decodeTuple (xs.map f) v) (decodeTuple (xs.map g) v) := by
  unfold decodeTuple
  rw [List.length_map, List.length_map]
  cases items : listItems? v with
  | none => exact .refl _
  | some vs =>
    refine .ite (.bind ?_ fun parts => .refl _) (.refl _)
    exact decodeParts_below 0 fun x mem w memW => h x mem vs items w memW

theorem decodeEntries_below {key key' item item' : Decode} {entries : List (String × Json)}
    (keys : ∀ e ∈ entries, Below (key (.string e.1)) (key' (.string e.1)))
    (items : ∀ e ∈ entries, Below (item e.2) (item' e.2)) :
    Below (decodeEntries key item entries) (decodeEntries key' item' entries) := by
  induction entries with
  | nil => exact .refl _
  | cons e rest ih =>
    refine .bind ((keys e List.mem_cons_self).mapError _) fun first => ?_
    refine .bind ((items e List.mem_cons_self).mapError _) fun second => ?_
    exact .bind (ih (fun e' mem => keys e' (List.mem_cons_of_mem _ mem))
      fun e' mem => items e' (List.mem_cons_of_mem _ mem)) fun others => .refl _

end Decoding

/-- Trying one conversion after another. A trial without a result ends all trials. -/
theorem firstSuccess_below {α β ι : Type} (failure : Failure) (v : α) {xs : List ι}
    {f g : ι → α → Run β} (h : ∀ x ∈ xs, Below (f x v) (g x v)) :
    Below (firstSuccess failure v (xs.map f)) (firstSuccess failure v (xs.map g)) := by
  induction xs with
  | nil => exact .refl _
  | cons x xs ih =>
    have first := h x List.mem_cons_self
    have tail := ih fun y mem => h y (List.mem_cons_of_mem _ mem)
    rw [List.map_cons, List.map_cons, firstSuccess, firstSuccess]
    cases ran : (f x v).run with
    | none => exact .of_none rfl
    | some ending =>
      rw [first ending ran]
      cases ending with
      | ok b => exact .refl _
      | error e => exact tail

theorem map_trialOrder {α β ι : Type} (preferred : α → Bool) (arm : ι → α) (convert : ι → β)
    (xs : List ι) :
    (trialOrder (fun (a, _) => preferred a) ((xs.map arm).zip (xs.map convert))).map Prod.snd =
      (trialOrder (fun x => preferred (arm x)) xs).map convert := by
  simp only [trialOrder, List.zip_map', List.filter_map, List.map_append, List.map_map]
  rfl

theorem mem_trialOrder {α : Type} {preferred : α → Bool} {xs : List α} {x : α} :
    x ∈ trialOrder preferred xs ↔ x ∈ xs := by
  simp only [trialOrder, List.mem_append, List.mem_filter]
  cases preferred x <;> simp

theorem find?_tagged {β ι : Type} (tag : String) (arm : ι → UnionArm) (convert : ι → β)
    (xs : List ι) :
    ((xs.map arm).zip (xs.map convert)).find? (fun (arm, _) => arm.tag == some tag) =
      (xs.find? fun x => (arm x).tag == some tag).map fun x => (arm x, convert x) := by
  rw [List.zip_map', List.find?_map]
  rfl

theorem decodeUnion_below {ι : Type} {plan : UnionPlan} {xs : List ι} {arm : ι → UnionArm}
    (arms : plan.arms = xs.map arm) {f g : ι → Decode} {v : Json}
    (h : ∀ x ∈ xs, Below (f x v) (g x v)) :
    Below (decodeUnion plan (xs.map f) v) (decodeUnion plan (xs.map g) v) := by
  unfold decodeUnion
  simp only [arms, map_trialOrder (fun arm : UnionArm => fitsValue arm.type v)]
  split
  case h_1 tag _ =>
    simp only [find?_tagged]
    cases found : xs.find? fun x => (arm x).tag == some tag with
    | none => exact .refl _
    | some x => exact h x (List.mem_of_find?_eq_some found)
  case h_2 =>
    exact firstSuccess_below _ _ fun x mem => h x (mem_trialOrder.1 mem)

theorem encodeUnion_below {ι : Type} {plan : UnionPlan} {xs : List ι} {arm : ι → UnionArm}
    (arms : plan.arms = xs.map arm) {f g : ι → Encode} {v : Instance}
    (h : ∀ x ∈ xs, Below (f x v) (g x v)) :
    Below (encodeUnion plan (xs.map f) v) (encodeUnion plan (xs.map g) v) := by
  unfold encodeUnion
  simp only [arms, map_trialOrder (fun arm : UnionArm => fitsInstance arm.type v)]
  exact firstSuccess_below _ _ fun x mem => h x (mem_trialOrder.1 mem)

section Encoding
variable {f g : Encode}

theorem encodeItems_below (index : Nat) {vs : List Instance} (h : ∀ v ∈ vs, Below (f v) (g v)) :
    Below (encodeItems f index vs) (encodeItems g index vs) := by
  induction vs generalizing index with
  | nil => exact .refl _
  | cons v rest ih =>
    refine .bind ((h v List.mem_cons_self).mapError _) fun first => ?_
    exact .bind (ih _ fun w mem => h w (List.mem_cons_of_mem _ mem)) fun others => .refl _

theorem encodeParts_below (index : Nat) {α : Type} {xs : List α} {f g : α → Encode}
    {vs : List Instance}
    (h : ∀ x ∈ xs, ∀ v ∈ vs, Below (f x v) (g x v)) :
    Below (encodeParts index (xs.map f) vs) (encodeParts index (xs.map g) vs) := by
  induction xs generalizing index vs with
  | nil => exact .refl _
  | cons x xs ih =>
    cases vs with
    | nil => exact .refl _
    | cons v rest =>
      refine .bind ((h x List.mem_cons_self v List.mem_cons_self).mapError _) fun first => ?_
      refine .bind (ih _ fun y memY w mem => ?_) fun others => .refl _
      exact h y (List.mem_cons_of_mem _ memY) w (List.mem_cons_of_mem _ mem)

theorem encodeTuple_below {α : Type} {xs : List α} {f g : α → Encode} {v : Instance}
    (h : ∀ x ∈ xs, ∀ vs, v.items? = some vs → ∀ w ∈ vs, Below (f x w) (g x w)) :
    Below (encodeTuple (xs.map f) v) (encodeTuple (xs.map g) v) := by
  unfold encodeTuple
  rw [List.length_map, List.length_map]
  cases items : v.items? with
  | none => exact .refl _
  | some vs =>
    refine .ite (.bind ?_ fun parts => .refl _) (.refl _)
    exact encodeParts_below 0 fun x mem w memW => h x mem vs items w memW

theorem encodeEntries_below {key key' item item' : Encode} {entries : List (Instance × Instance)}
    (keys : ∀ e ∈ entries, Below (key e.1) (key' e.1))
    (items : ∀ e ∈ entries, Below (item e.2) (item' e.2)) (out : List (String × Json)) :
    Below (encodeEntries key item entries out) (encodeEntries key' item' entries out) := by
  induction entries generalizing out with
  | nil => exact .refl _
  | cons e rest ih =>
    refine .bind ((keys e List.mem_cons_self).mapError _) fun first => ?_
    refine .bind ((items e List.mem_cons_self).mapError _) fun second => ?_
    exact ih (fun e' mem => keys e' (List.mem_cons_of_mem _ mem))
      (fun e' mem => items e' (List.mem_cons_of_mem _ mem)) _

end Encoding
end Converter
end RecordCodec
