import RecordCodec.Proofs.Naming
import RecordCodec.Proofs.Sessions

set_option autoImplicit false

/-!
# Names drawn from one scope

A scope numbers the names of each record by themselves, so that two names of one record differ. It
does not look at the names that are in use, and the number becomes a part of the name: the second
name of `Node` is the first one of a record that is named `Node#2`. The names that are drawn from
one scope are distinct just if none of them is drawn for a record that is named like another one
with a number that this one has reached.
-/
namespace RecordCodec.Compile.NameScope

structure Draw where
  direction : Direction
  record : String
  number : Nat

def Draw.name (d : Draw) : String := numbered (plainName d.direction d.record) d.number

/-- The names that a scope gives, one after another. -/
def drawAll : List (Direction × String) → NameScope → List String
  | [], _ => []
  | (direction, record) :: rest, s =>
    (s.fresh direction record).1 :: drawAll rest (s.fresh direction record).2

/-! ### Equal names -/

theorem eq_of_plainName_eq {direction direction' : Direction} {record record' : String}
    (h : plainName direction record = plainName direction' record') :
    direction = direction' ∧ record = record' := by
  have same : direction = direction' := by
    have first := congrArg (fun name => name.toList.head?) h
    cases direction <;> cases direction' <;> simp [plainName, Direction.name] at first ⊢
  subst same
  exact ⟨rfl, plainName_injective h⟩

/-- Two draws with one name are the same, unless one is the first for a record that is named like
the record of the other one with its number. -/
theorem Draw.eq_or_of_name_eq {d d' : Draw} (low : 1 ≤ d.number) (low' : 1 ≤ d'.number)
    (h : d.name = d'.name) :
    d = d' ∨ d.direction = d'.direction ∧
      (d.number = 1 ∧ 1 < d'.number ∧ d.record = numbered d'.record d'.number ∨
        d'.number = 1 ∧ 1 < d.number ∧ d'.record = numbered d.record d.number) := by
  obtain ⟨direction, record, m⟩ := d
  obtain ⟨direction', record', n⟩ := d'
  simp only [name, numbered_plainName] at h
  obtain ⟨rfl, same⟩ := eq_of_plainName_eq h
  rcases Nat.eq_or_lt_of_le low with rfl | more <;> rcases Nat.eq_or_lt_of_le low' with rfl | more'
  · obtain rfl : record = record' := same
    exact .inl rfl
  · exact .inr ⟨rfl, .inl ⟨rfl, more', same⟩⟩
  · exact .inr ⟨rfl, .inr ⟨rfl, more, same.symm⟩⟩
  · obtain ⟨rfl, rfl⟩ := numbered_injective more more' same
    exact .inl rfl

/-! ### The names of a run -/

/-- The calls draw this name: its number goes beyond those that the scope has given. -/
def Draws (calls : List (Direction × String)) (s : NameScope) (d : Draw) : Prop :=
  s.count (plainName d.direction d.record) < d.number ∧
    d.number ≤ s.count (plainName d.direction d.record) + calls.count (d.direction, d.record)

section
variable {direction : Direction} {record : String} {calls : List (Direction × String)}
  {s : NameScope}

theorem count_fresh_of_ne {direction' : Direction} {record' : String}
    (h : (direction', record') ≠ (direction, record)) (s : NameScope) :
    (s.fresh direction record).2.count (plainName direction' record') =
      s.count (plainName direction' record') := by
  have other : plainName direction' record' ≠ plainName direction record := by
    intro same
    obtain ⟨rfl, rfl⟩ := eq_of_plainName_eq same
    exact h rfl
  simp [fresh, count, Assoc.get?_insert_of_ne other]

/-- A call draws the next number of its record, and leaves the numbers of the others alone. -/
theorem draws_cons_iff {d : Draw} :
    Draws ((direction, record) :: calls) s d ↔
      d = ⟨direction, record, s.count (plainName direction record) + 1⟩ ∨
        Draws calls (s.fresh direction record).2 d := by
  obtain ⟨direction', record', n⟩ := d
  simp only [Draws, Draw.mk.injEq]
  by_cases same : (direction', record') = (direction, record)
  · obtain ⟨rfl, rfl⟩ := Prod.mk.inj same
    rw [count_fresh, List.count_cons_self]
    simp only [true_and]
    omega
  · have apart : ¬(direction' = direction ∧ record' = record) := by rwa [← Prod.mk.injEq]
    rw [count_fresh_of_ne same, List.count_cons_of_ne (Ne.symm same), ← and_assoc,
      or_iff_right fun first => apart first.1]

theorem mem_drawAll_iff {name : String} :
    name ∈ drawAll calls s ↔ ∃ d, Draws calls s d ∧ d.name = name := by
  induction calls generalizing s with
  | nil =>
    simp only [drawAll, List.not_mem_nil, false_iff]
    rintro ⟨d, ⟨low, high⟩, -⟩
    exact absurd high (Nat.not_le_of_lt low)
  | cons call rest ih =>
    obtain ⟨direction, record⟩ := call
    rw [drawAll, List.mem_cons, ih]
    constructor
    · rintro (rfl | ⟨d, drawn, rfl⟩)
      · exact ⟨_, draws_cons_iff.2 (.inl rfl), rfl⟩
      · exact ⟨d, draws_cons_iff.2 (.inr drawn), rfl⟩
    · rintro ⟨d, drawn, rfl⟩
      rcases draws_cons_iff.1 drawn with rfl | drawn
      · exact .inl rfl
      · exact .inr ⟨d, drawn, rfl⟩

theorem nodup_drawAll_iff_injective :
    (drawAll calls s).Nodup ↔
      ∀ d d', Draws calls s d → Draws calls s d' → d.name = d'.name → d = d' := by
  induction calls generalizing s with
  | nil =>
    refine iff_of_true .nil fun d _ drawn => ?_
    exact absurd drawn.2 (Nat.not_le_of_lt drawn.1)
  | cons call rest ih =>
    obtain ⟨direction, record⟩ := call
    rw [drawAll, List.nodup_cons, ih, mem_drawAll_iff]
    constructor
    · rintro ⟨new, apart⟩ d d' drawn drawn' same
      rcases draws_cons_iff.1 drawn with rfl | drawn <;>
        rcases draws_cons_iff.1 drawn' with rfl | drawn'
      · rfl
      · exact absurd ⟨d', drawn', same.symm⟩ new
      · exact absurd ⟨d, drawn, same⟩ new
      · exact apart d d' drawn drawn' same
    · intro apart
      refine ⟨?_, fun d d' drawn drawn' =>
        apart d d' (draws_cons_iff.2 (.inr drawn)) (draws_cons_iff.2 (.inr drawn'))⟩
      rintro ⟨d, drawn, same⟩
      obtain rfl := apart d _ (draws_cons_iff.2 (.inr drawn)) (draws_cons_iff.2 (.inl rfl)) same
      -- the number of the first name is given now, and a later one is larger
      have later := drawn.1
      rw [count_fresh] at later
      exact absurd later (Nat.lt_irrefl _)

end

/-- The names that one scope gives are pairwise distinct, in whatever order and for whatever records
they are asked for, just if no name is asked for a record that is named like another one with a
number up to how often this one is asked for. -/
theorem nodup_drawAll_iff (calls : List (Direction × String)) :
    (drawAll calls {}).Nodup ↔
      ∀ direction record n, 1 < n → n ≤ calls.count (direction, record) →
        (direction, record ++ "#" ++ toString n) ∉ calls := by
  have draws (d : Draw) : Draws calls {} d ↔
      1 ≤ d.number ∧ d.number ≤ calls.count (d.direction, d.record) := by
    simp [Draws, count, Assoc.get?, Nat.lt_iff_add_one_le]
  have withNumber (record : String) {n : Nat} (more : 1 < n) :
      numbered record n = record ++ "#" ++ toString n := if_neg (by omega)
  rw [nodup_drawAll_iff_injective]
  constructor
  · intro apart direction record n more reached mem
    have first : Draws calls {} ⟨direction, numbered record n, 1⟩ :=
      (draws _).2
        ⟨Nat.le_refl 1, by simpa [withNumber record more, List.one_le_count_iff] using mem⟩
    have second : Draws calls {} ⟨direction, record, n⟩ :=
      (draws _).2 ⟨Nat.le_of_lt more, reached⟩
    have same : numbered (plainName direction (numbered record n)) 1 =
        numbered (plainName direction record) n := by
      rw [numbered_plainName, numbered_plainName]
      rfl
    have isOne := congrArg Draw.number (apart _ _ first second same)
    exact absurd isOne (Nat.ne_of_lt more)
  · intro apart d d' drawn drawn' same
    obtain ⟨low, high⟩ := (draws d).1 drawn
    obtain ⟨low', high'⟩ := (draws d').1 drawn'
    rcases Draw.eq_or_of_name_eq low low' same with same | ⟨isDirection, clash⟩
    · exact same
    · rcases clash with ⟨isOne, more, isNamed⟩ | ⟨isOne, more, isNamed⟩
      · refine absurd ?_ (apart d'.direction d'.record d'.number more high')
        rw [← withNumber d'.record more, ← isNamed, ← isDirection]
        exact List.one_le_count_iff.1 (isOne ▸ high)
      · refine absurd ?_ (apart d.direction d.record d.number more high)
        rw [← withNumber d.record more, ← isNamed, isDirection]
        exact List.one_le_count_iff.1 (isOne ▸ high')

/-- The second name of `Node` is the first one of `Node#2`. -/
theorem not_nodup_drawAll_node :
    ¬(drawAll [(.decode, "Node"), (.decode, "Node"), (.decode, "Node#2")] {}).Nodup := by
  decide

end RecordCodec.Compile.NameScope
