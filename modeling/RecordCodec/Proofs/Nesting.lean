import RecordCodec.Proofs.Drafts

set_option autoImplicit false

/-!
# What can be lowered

The operations of bodies form a language: a body is a sequence of steps and of blocks around
bodies. A lowering reads the operations one by one. What it has read so far is told by the blocks
that are still open, each with the parts that it holds, so operations that it can lower form a body.
-/
namespace RecordCodec.Routine

variable {I O : Type}

/-- The operations form a body: steps and closed blocks, one after another. -/
inductive IsBody : List (Op I O) → Prop where
  | nil : IsBody []
  | append {first second : List (Op I O)} :
    IsBody first → IsBody second → IsBody (first ++ second)
  | emit (s : Step I O) : IsBody [.emit s]
  | when {body : List (Op I O)} (cond : Cond I) :
    IsBody body → IsBody (.opening (.when cond) :: (body ++ [.close]))
  | branch {body other : List (Op I O)} (cond : Cond I) :
    IsBody body → IsBody other →
    IsBody (.opening (.when cond) :: (body ++ .otherwise :: (other ++ [.close])))
  | forEachKey {body : List (Op I O)} (source : KeySource I) :
    IsBody body → IsBody (.opening (.forEachKey source) :: (body ++ [.close]))
  | guard {body : List (Op I O)} (recover : Recover I) :
    IsBody body → IsBody (.opening (.guard recover) :: (body ++ [.close]))

theorem IsBody.of_nests {ops : List (Op I O)} {b : Block I O} (h : Nests ops b) : IsBody ops := by
  induction h with
  | done => exact .nil
  | step s _ ih => exact .append (.emit s) ih
  | when cond _ _ ihBody ih => simpa using IsBody.append (.when cond ihBody) ih
  | branch cond _ _ _ ihYes ihNo ih => simpa using IsBody.append (.branch cond ihYes ihNo) ih
  | forEachKey source _ _ ihBody ih => simpa using IsBody.append (.forEachKey source ihBody) ih
  | guard recover _ _ ihBody ih => simpa using IsBody.append (.guard recover ihBody) ih

theorem wellNested_iff_isBody {ops : List (Op I O)} : WellNested ops ↔ IsBody ops := by
  constructor
  · rintro ⟨b, nests⟩
    exact .of_nests nests
  · intro body
    induction body with
    | nil => exact .nil
    | append _ _ ih ih' => exact ih.append ih'
    | emit s => exact .emit s .nil
    | when cond _ ih => exact .when cond ih
    | branch cond _ _ ih ih' => exact .branch cond ih ih'
    | forEachKey source _ ih => exact .forEachKey source ih
    | guard recover _ ih => exact .guard recover ih

/-- The open blocks, innermost first, and the body around them hold the operations read so far. -/
inductive Reads : List (Op I O) → List (Frame I O) → Block I O → Prop where
  | top {ops : List (Op I O)} {body : Block I O} : Nests ops body → Reads ops [] body
  | first {before inside : List (Op I O)} {stack : List (Frame I O)} {body first : Block I O}
      (kind : BlockKind I) :
    Reads before stack body → Nests inside first →
    Reads (before ++ .opening kind :: inside) ({ kind, first } :: stack) body
  | second {before inside other : List (Op I O)} {stack : List (Frame I O)}
      {body yes no : Block I O} (cond : Cond I) :
    Reads before stack body → Nests inside yes → Nests other no →
    Reads (before ++ .opening (.when cond) :: (inside ++ .otherwise :: other))
      ({ kind := .when cond, first := yes, second := some no } :: stack) body

namespace Reads

variable {ops before : List (Op I O)} {stack : List (Frame I O)} {body b : Block I O}

theorem place (h : Reads before stack body) (nests : Nests ops b) :
    Reads (before ++ ops) (place b stack body).1 (place b stack body).2 := by
  cases h with
  | top outer => exact .top (outer.append nests)
  | first kind outer inside =>
    rw [List.append_assoc, List.cons_append]
    exact .first kind outer (inside.append nests)
  | second cond outer inside other =>
    rw [List.append_assoc, List.cons_append, List.append_assoc, List.cons_append]
    exact .second cond outer inside (other.append nests)

theorem otherwise {f f' : Frame I O} (h : Reads before (f :: stack) body)
    (started : f.startSecond = .ok f') : Reads (before ++ [.otherwise]) (f' :: stack) body := by
  cases h with
  | first kind outer inside =>
    cases kind with
    | when cond =>
      cases started
      rw [List.append_assoc, List.cons_append]
      exact .second cond outer inside .done
    | forEachKey source => cases started
    | guard recover => cases started
  | second cond outer inside other => cases started

theorem close {f : Frame I O} (h : Reads before (f :: stack) body) :
    ∃ outside closed, before ++ [.close] = outside ++ closed ∧ Reads outside stack body ∧
      Nests closed f.close := by
  cases h with
  | first kind outer inside =>
    refine ⟨_, _, by rw [List.append_assoc, List.cons_append], outer, ?_⟩
    cases kind with
    | when cond => exact .when cond inside .done
    | forEachKey source => exact .forEachKey source inside .done
    | guard recover => exact .guard recover inside .done
  | second cond outer inside other =>
    refine ⟨_, _, by rw [List.append_assoc, List.cons_append, List.append_assoc,
      List.cons_append], outer, ?_⟩
    exact .branch cond inside other .done

/-- A lowering keeps what it has read until nothing is left to read. -/
theorem nests_of_nest {block : Block I O} (h : Reads before stack body)
    (lowered : nest ops stack body = .ok block) : Nests (before ++ ops) block := by
  induction ops generalizing before stack body with
  | nil =>
    cases h with
    | top outer =>
      cases lowered
      rwa [List.append_nil]
    | first => cases lowered
    | second => cases lowered
  | cons op ops ih =>
    rw [List.append_cons]
    cases op with
    | emit s =>
      rw [nest_emit] at lowered
      exact ih (h.place (.step s .done)) lowered
    | opening kind => exact ih (.first kind h .done) lowered
    | otherwise =>
      cases stack with
      | nil => cases lowered
      | cons f stack =>
        rw [nest] at lowered
        cases started : f.startSecond with
        | error m =>
          rw [started] at lowered
          cases lowered
        | ok f' =>
          rw [started] at lowered
          exact ih (h.otherwise started) lowered
    | close =>
      cases stack with
      | nil => cases lowered
      | cons f stack =>
        rw [nest_close] at lowered
        obtain ⟨outside, closed, split, outer, nests⟩ := h.close
        rw [split]
        exact ih (outer.place nests) lowered

end Reads

theorem nest_eq_ok_iff {ops : List (Op I O)} {b : Block I O} :
    nest ops [] .done = .ok b ↔ Nests ops b :=
  ⟨Reads.nests_of_nest (.top .done), nest_of_nests⟩

theorem Nests.unique {ops : List (Op I O)} {b b' : Block I O} (h : Nests ops b)
    (h' : Nests ops b') : b = b' := by
  have same := (nest_of_nests h).symm.trans (nest_of_nests h')
  exact Except.ok.inj same

namespace Draft

variable {d : Draft I O}

theorem lower_eq_ok_iff {c : Code I O} :
    d.lower = .ok c ↔ ∃ b finish, Nests d.ops b ∧ d.finish = some finish ∧
      c = { name := d.name, slots := d.slots, body := b, finish, reach := d.reach } := by
  simp only [lower_eq_ok_iff_nest, nest_eq_ok_iff]

theorem lowers_iff : d.Lowers ↔ d.finish.isSome = true ∧ IsBody d.ops := by
  constructor
  · rintro ⟨c, lowered⟩
    obtain ⟨b, finish, nests, finished, -⟩ := lower_eq_ok_iff.1 lowered
    exact ⟨by rw [finished]; rfl, .of_nests nests⟩
  · rintro ⟨finished, body⟩
    exact lowers_of_wellNested (wellNested_iff_isBody.2 body) finished

end Draft
end RecordCodec.Routine
