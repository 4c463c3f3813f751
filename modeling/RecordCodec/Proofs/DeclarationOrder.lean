import RecordCodec.Codec
import RecordCodec.Proofs.Merging
import RecordCodec.Proofs.Results
import RecordCodec.Proofs.Shadowing

set_option autoImplicit false

/-!
# The order of declarations

A declaration is accepted if its name is free and it passes checks of its own, which do not look at
what the schema holds. Whatever is declared is kept under its name. So two documents that list the
same declarations in different orders make the same schema, or neither of them makes one.
-/
namespace RecordCodec

open Routine (Run)
open Routine.Run (Returns)

/-- Where two additions in a row succeed, they do so the other way round and come to the same. -/
def Commutes {σ α : Type} (add : σ → α → Run σ) : Prop :=
  ∀ a b s t, (add s a >>= fun s => add s b).Returns t → (add s b >>= fun s => add s a).Returns t

theorem Commutes.foldlM_perm {σ α : Type} {add : σ → α → Run σ} (commutes : Commutes add)
    {l l' : List α} (permuted : l.Perm l') {s t : σ} (made : (l.foldlM add s).Returns t) :
    (l'.foldlM add s).Returns t := by
  induction permuted generalizing s with
  | nil => exact made
  | cons a _ ih =>
    rw [List.foldlM_cons, Returns.bind_iff] at made ⊢
    obtain ⟨s', first, rest⟩ := made
    exact ⟨s', first, ih rest⟩
  | swap a b l =>
    simp only [List.foldlM_cons, ← bind_assoc] at made ⊢
    obtain ⟨s', both, rest⟩ := Returns.bind_iff.1 made
    exact Returns.bind_iff.2 ⟨s', commutes b a s s' both, rest⟩
  | trans _ _ ih ih' => exact ih' (ih made)

theorem Table.insert_comm {α : Type} {name other : String} (ne : name ≠ other) (value value' : α)
    (t : Table α) : (t.insert other value').insert name value =
      (t.insert name value).insert other value' := by
  apply ext_get?
  intro key
  simp only [get?_insert]
  by_cases isName : key = name
  · rw [if_pos isName, if_neg (isName ▸ ne), if_pos isName]
  · rw [if_neg isName, if_neg isName]

namespace Schema

/-- How declarations of one kind are added: one that is made out of `a` is put under its name, if
that is free. -/
structure Adds {α β : Type} (made : α → β → Prop) (name : β → String) (put : β → Schema → Schema)
    (add : Schema → α → Run Schema) : Prop where
  add_returns_iff : ∀ a s t, (add s a).Returns t ↔
    ∃ x, made a x ∧ s.isTaken (name x) = false ∧ t = put x s
  isTaken_put : ∀ x s other,
    (put x s).isTaken other = (decide (other = name x) || s.isTaken other)
  put_comm : ∀ x y s, name x ≠ name y → put x (put y s) = put y (put x s)

theorem Adds.commutes {α β : Type} {made : α → β → Prop} {name : β → String}
    {put : β → Schema → Schema} {add : Schema → α → Run Schema}
    (adds : Adds made name put add) : Commutes add := by
  intro a b s t both
  obtain ⟨s₁, first, second⟩ := Returns.bind_iff.1 both
  obtain ⟨x, madeX, freeX, rfl⟩ := (adds.add_returns_iff a s s₁).1 first
  obtain ⟨y, madeY, freeY, rfl⟩ := (adds.add_returns_iff b _ t).1 second
  -- the second name was still free after the first, so the two differ
  rw [adds.isTaken_put, Bool.or_eq_false_iff, decide_eq_false_iff_not] at freeY
  have freeX' : (put y s).isTaken (name x) = false := by
    rw [adds.isTaken_put, freeX, Bool.or_false, decide_eq_false (Ne.symm freeY.1)]
  refine Returns.bind_iff.2 ⟨put y s, (adds.add_returns_iff b s _).2 ⟨y, madeY, freeY.2, rfl⟩, ?_⟩
  exact (adds.add_returns_iff a _ _).2 ⟨x, madeX, freeX', adds.put_comm y x s freeY.1⟩

variable {s : Schema} {name : String}

theorem checkFree_eq_ok_iff : s.checkFree name = .ok () ↔ s.isTaken name = false := by
  unfold checkFree
  cases s.isTaken name
  · exact ⟨fun _ => rfl, fun _ => rfl⟩
  · exact ⟨nofun, nofun⟩

theorem check_bind_eq_ok_iff {α : Type} {check : Except Failure Unit}
    {next : Unit → Except Failure α} {a : α} :
    (check >>= next) = .ok a ↔ check = .ok () ∧ next () = .ok a :=
  bind_eq_ok_iff.trans
    ⟨fun ⟨_, passed, rest⟩ => ⟨passed, rest⟩, fun ⟨passed, rest⟩ => ⟨(), passed, rest⟩⟩

theorem enums_adds : Adds (fun decl e => enumOfDecl decl = e ∧ e.variants.isEmpty = false)
    EnumType.name (fun e s => { s with enums := s.enums.insert e.name e })
    fun s decl => .ofExcept (s.addEnum (enumOfDecl decl)) where
  add_returns_iff decl s t := by
    simp only [Returns.ofExcept_iff, addEnum, check_bind_eq_ok_iff, checkFree_eq_ok_iff,
      and_assoc, exists_eq_left']
    rw [and_left_comm]
    refine and_congr_right fun _ => ?_
    cases (enumOfDecl decl).variants.isEmpty with
    | true => exact ⟨fun made => (by cases made), fun made => (by cases made.1)⟩
    | false => exact ⟨fun made => ⟨rfl, (Except.ok.inj made).symm⟩, fun made => by rw [made.2]; rfl⟩
  isTaken_put e s other := by
    simp only [isTaken, Table.contains_insert, Bool.or_assoc]
    rw [Bool.or_left_comm]
  put_comm e e' s ne := by rw [Table.insert_comm ne]

theorem customs_adds : Adds Eq Document.CustomDecl.name
    (fun decl s => { s with customs := s.customs.insert decl.name decl.base })
    fun s decl => .ofExcept (s.addCustom decl.name decl.base) where
  add_returns_iff decl s t := by
    simp only [Returns.ofExcept_iff, addCustom, check_bind_eq_ok_iff, checkFree_eq_ok_iff,
      exists_eq_left', Except.ok.injEq]
    rw [eq_comm (b := t)]
  isTaken_put decl s other := by
    simp only [isTaken, Table.contains_insert, Bool.or_assoc]
    rw [Bool.or_left_comm (s.enums.contains other), Bool.or_left_comm]
  put_comm decl decl' s ne := by rw [Table.insert_comm ne]

theorem records_adds : Adds (fun decl r => (recordOfDecl decl).Returns r ∧ r.check = .ok ())
    RecordType.name (fun r s => { s with records := s.records.insert r.name r })
    fun s decl => do .ofExcept (s.addRecord (← recordOfDecl decl)) where
  add_returns_iff decl s t := by
    simp only [Returns.bind_iff, Returns.ofExcept_iff, addRecord, check_bind_eq_ok_iff,
      checkFree_eq_ok_iff, and_assoc, Except.ok.injEq]
    refine exists_congr fun r => and_congr_right fun _ => ?_
    rw [and_left_comm, eq_comm (b := t)]
  isTaken_put r s other := by
    simp only [isTaken, Table.contains_insert, Bool.or_assoc]
  put_comm r r' s ne := by rw [Table.insert_comm ne]

variable {d d' : Document} (records : d.records.Perm d'.records) (enums : d.enums.Perm d'.enums)
  (custom : d.custom.Perm d'.custom)
include records enums custom

theorem ofDocument_returns_of_perm (made : (ofDocument d).Returns s) :
    (ofDocument d').Returns s := by
  obtain ⟨s₁, first, made⟩ := Returns.bind_iff.1 made
  obtain ⟨s₂, second, third⟩ := Returns.bind_iff.1 made
  refine Returns.bind_iff.2 ⟨s₁, enums_adds.commutes.foldlM_perm enums first, ?_⟩
  exact Returns.bind_iff.2 ⟨s₂, customs_adds.commutes.foldlM_perm custom second,
    records_adds.commutes.foldlM_perm records third⟩

/-- The order in which a document lists its records, its enumerations and its custom scalars has no
meaning. If it makes a schema in one order, it does so in every other, and whatever is asked of
the two schemas has the same answer. -/
theorem ofDocument_perm :
    ((∃ s, (ofDocument d).Returns s) ↔ ∃ s, (ofDocument d').Returns s) ∧
    ∀ s s', (ofDocument d).Returns s → (ofDocument d').Returns s' → s = s' ∧
      (∀ name, s.classify name = s'.classify name) ∧
      (∀ name, s.ancestors name = s'.ancestors name) ∧
      ∀ (registry : Registry) (cache : Cache) (record : String) (overrides : Config),
        Codec.decoder record overrides { schema := s, registry, cache } =
          Codec.decoder record overrides { schema := s', registry, cache } ∧
        Codec.encoder record overrides { schema := s, registry, cache } =
          Codec.encoder record overrides { schema := s', registry, cache } ∧
        (∀ v, Codec.decode record v overrides { schema := s, registry, cache } =
          Codec.decode record v overrides { schema := s', registry, cache }) ∧
        ∀ i, Codec.encode record i overrides { schema := s, registry, cache } =
          Codec.encode record i overrides { schema := s', registry, cache } := by
  constructor
  · constructor
    · rintro ⟨s, made⟩
      exact ⟨s, ofDocument_returns_of_perm records enums custom made⟩
    · rintro ⟨s, made⟩
      exact ⟨s, ofDocument_returns_of_perm records.symm enums.symm custom.symm made⟩
  · intro s s' made made'
    have same := ofDocument_returns_of_perm records enums custom made
    obtain rfl : s = s' := same.unique made'
    exact ⟨rfl, fun _ => rfl, fun _ => rfl, fun _ _ _ _ => ⟨rfl, rfl, fun _ => rfl, fun _ => rfl⟩⟩

end Schema

namespace Library

def shelf : Document.RecordDecl where
  name := "Shelf"
  fields := [{ name := "books", type := "list[Book]" }, { name := "order", type := "Order" }]

def book : Document.RecordDecl where
  name := "Book"
  fields := [{ name := "title", type := "Title" }, { name := "next", type := "Book | None" }]

def order : Document.EnumDecl := ⟨"Order", [⟨"ASC", none⟩, ⟨"DESC", some (.string "down")⟩]⟩

def genre : Document.EnumDecl := ⟨"Genre", [⟨"NOVEL", none⟩]⟩

def document : Document where
  records := [shelf, book]
  enums := [order, genre]
  custom := [⟨"Title", some "Text"⟩, ⟨"Text", some "str"⟩]

def reversed : Document where
  records := [book, shelf]
  enums := [genre, order]
  custom := [⟨"Text", some "str"⟩, ⟨"Title", some "Text"⟩]

end Library

theorem Schema.ofDocument_perm_library :
    Library.document.records.Perm Library.reversed.records ∧
    Library.document.enums.Perm Library.reversed.enums ∧
    Library.document.custom.Perm Library.reversed.custom ∧
    ∃ s s', (ofDocument Library.document).Returns s ∧ (ofDocument Library.reversed).Returns s' ∧
      (∀ name, s.classify name = s'.classify name) ∧
      (∀ name, s.ancestors name = s'.ancestors name) ∧
      ∀ v, Codec.decode "Shelf" v {} { schema := s } =
        Codec.decode "Shelf" v {} { schema := s' } := by
  have records : Library.document.records.Perm Library.reversed.records := .swap _ _ _
  have enums : Library.document.enums.Perm Library.reversed.enums := .swap _ _ _
  have custom : Library.document.custom.Perm Library.reversed.custom := .swap _ _ _
  have accepted : (ofDocument Library.document).returnsWith (fun _ => true) = true := by
    decide +kernel
  obtain ⟨both, agree⟩ := ofDocument_perm records enums custom
  obtain ⟨s, made, -⟩ := Run.exists_of_returnsWith accepted
  obtain ⟨s', made'⟩ := both.1 ⟨s, made⟩
  obtain ⟨-, classified, ancestry, asked⟩ := agree s s' made made'
  exact ⟨records, enums, custom, s, s', made, made', classified, ancestry,
    (asked .builtin {} "Shelf" {}).2.2.1⟩

end RecordCodec
