import RecordCodec.Proofs.Derivations
import RecordCodec.Proofs.Shadowing
import RecordCodec.Proofs.UnionForms

set_option autoImplicit false

/-!
# The names in a type that was read

A type that was read refers to declared types by name, and each of these names stands in the text as
a token of its own. Nothing that is put together while a text is read brings in another name: a
union refers to what its members refer to, and the defaults of a container refer to nothing.
-/
namespace RecordCodec.TypeExpr

variable {name word : String} {ty : TypeExpr} {tys : List TypeExpr}

theorem mem_namesOfAll : word ∈ namesOfAll tys ↔ ∃ ty ∈ tys, word ∈ ty.referencedNames := by
  induction tys with
  | nil => simp [namesOfAll]
  | cons ty tys ih => simp [namesOfAll, ih]

theorem mem_referencedNames : word ∈ ty.referencedNames ↔
    ty.shape.declaredName? = some word ∨ ∃ arg ∈ ty.args, word ∈ arg.referencedNames := by
  obtain ⟨shape, args, literals⟩ := ty
  rw [referencedNames, List.mem_append, Option.mem_toList, mem_namesOfAll]

theorem mem_referencedNames_apply {shape : Shape} (noName : shape.declaredName? = none) :
    word ∈ (apply shape tys).referencedNames ↔ ∃ ty ∈ tys, word ∈ ty.referencedNames := by
  rw [mem_referencedNames]
  exact or_iff_right fun isName => by cases noName.symm.trans isName

theorem referencedNames_of_mem_alternatives {alternative : TypeExpr}
    (mem : alternative ∈ ty.alternatives) (refers : word ∈ alternative.referencedNames) :
    word ∈ ty.referencedNames := by
  have inner : alternative ∈ ty.args → word ∈ ty.referencedNames :=
    fun isArg => mem_referencedNames.2 (.inr ⟨_, isArg, refers⟩)
  unfold alternatives at mem
  split at mem
  case h_1 => exact inner mem
  case h_2 =>
    rcases List.mem_cons.1 mem with rfl | mem
    · cases refers
    · exact inner mem
  case h_3 => rwa [← List.mem_singleton.1 mem]

theorem exists_of_mem_referencedNames_unionOf (refers : word ∈ (unionOf tys).referencedNames) :
    ∃ ty ∈ tys, word ∈ ty.referencedNames := by
  have ofArm : ∀ arm ∈ armsOf tys, word ∈ arm.referencedNames →
      ∃ ty ∈ tys, word ∈ ty.referencedNames := by
    intro arm mem refers
    obtain ⟨-, ty, isMember, isPart⟩ := mem_armsOf mem
    exact ⟨ty, isMember, referencedNames_of_mem_alternatives isPart refers⟩
  by_cases none : armsOf tys = []
  · rw [unionOf_of_nil none] at refers
    cases refers
  · obtain ⟨inner, form, whole⟩ := unionOf_of_ne_nil none
    have refers : word ∈ inner.referencedNames := by
      rw [whole] at refers
      split at refers
      · obtain ⟨ty, isInner, refers⟩ := (mem_referencedNames_apply rfl).1 refers
        rwa [← List.mem_singleton.1 isInner]
      · exact refers
    rcases form with only | ⟨-, rfl⟩
    · exact ofArm inner (by rw [only]; exact List.mem_cons_self) refers
    · obtain ⟨arm, isArm, refers⟩ := (mem_referencedNames_apply rfl).1 refers
      exact ofArm arm isArm refers

/-- The word stands for a declared type and means nothing else in a type. -/
def IsReference (word : String) : Prop := headOf word = .plain ∧ Primitive.ofName? word = none

def Content.names : Content → List String
  | .type ty => ty.referencedNames
  | _ => []

def Phrase.names : Phrase → List String
  | .type ty | .term ty => ty.referencedNames
  | .bars tys => tys.flatMap referencedNames
  | .args _ contents => contents.flatMap Content.names
  | .arg _ content => content.names

theorem exists_of_mem_referencedNames_joined (refers : word ∈ (joined ty tys).referencedNames) :
    word ∈ ty.referencedNames ∨ ∃ arm ∈ tys, word ∈ arm.referencedNames := by
  unfold joined at refers
  split at refers
  case isTrue => exact .inl refers
  case isFalse => simpa using exists_of_mem_referencedNames_unionOf refers

theorem referencedNames_of_headOf {shape : Shape} {defaults : List TypeExpr}
    (h : headOf name = .container shape defaults) :
    ∀ ty ∈ defaults, ty.referencedNames = [] := by
  unfold headOf at h
  split_ifs at h <;> cases h <;> decide

theorem Denotes.names {contents : Option (List Content)} (h : Denotes name contents ty)
    (refers : word ∈ ty.referencedNames) :
    word = name ∧ IsReference word ∨ word ∈ (contents.getD []).flatMap Content.names := by
  have ofTypes : ∀ {types : List TypeExpr}, (∃ ty ∈ types, word ∈ ty.referencedNames) →
      word ∈ (types.map Content.type).flatMap Content.names := by
    rintro types ⟨ty, mem, refers⟩
    exact List.mem_flatMap.2 ⟨_, List.mem_map_of_mem mem, refers⟩
  cases h with
  | optional =>
    obtain ⟨member, mem, isName⟩ := exists_of_mem_referencedNames_unionOf refers
    simp only [List.mem_cons, List.not_mem_nil, or_false] at mem
    rcases mem with rfl | rfl
    · exact .inr (List.mem_flatMap.2 ⟨.type member, List.mem_cons_self, isName⟩)
    · cases isName
  | union => exact .inr (ofTypes (exists_of_mem_referencedNames_unionOf refers))
  | literal => cases refers
  | anyTuple => cases refers
  | emptyTuple => cases refers
  | @variadic item =>
    obtain ⟨member, mem, isName⟩ := (mem_referencedNames_apply rfl).1 refers
    rw [List.mem_singleton.1 mem] at isName
    exact .inr (List.mem_flatMap.2 ⟨.type item, List.mem_cons_self, isName⟩)
  | tuple => exact .inr (ofTypes ((mem_referencedNames_apply rfl).1 refers))
  | ofAny isHead =>
    obtain ⟨ty, mem, refers⟩ :=
      (mem_referencedNames_apply (declaredName?_of_headOf isHead)).1 refers
    rw [referencedNames_of_headOf isHead ty mem] at refers
    cases refers
  | container isHead =>
    exact .inr (ofTypes ((mem_referencedNames_apply (declaredName?_of_headOf isHead)).1 refers))
  | primitive => cases refers
  | named plain unknown =>
    obtain rfl : word = name := List.mem_singleton.1 refers
    exact .inl ⟨rfl, plain, unknown⟩

/-- The names in what was read are words of the text, each a token of its own. -/
theorem Derives.names {part : List Token} {phrase : Phrase} (h : Derives part phrase)
    (refers : word ∈ phrase.names) : .ident word ∈ part ∧ IsReference word := by
  have leave : ∀ {a b : List Token}, .ident word ∈ a ∧ IsReference word → a ⊆ b →
      .ident word ∈ b ∧ IsReference word := fun given subset => ⟨subset given.1, given.2⟩
  induction h with
  | type _ _ ihFirst ihMore =>
    rcases exists_of_mem_referencedNames_joined refers with refers | more
    · exact leave (ihFirst refers) (List.subset_append_left _ _)
    · exact leave (ihMore (List.mem_flatMap.2 more)) (List.subset_append_right _ _)
  | @bar first more ty tys _ _ ihFirst ihMore =>
    have inside := List.subset_cons_self Token.pipe (first ++ more)
    rw [Phrase.names, List.flatMap_cons, List.mem_append] at refers
    rcases refers with refers | refers
    · exact leave (ihFirst refers) fun _ mem => inside (List.mem_append_left _ mem)
    · exact leave (ihMore refers) fun _ mem => inside (List.mem_append_right _ mem)
  | name denotes =>
    rcases denotes.names refers with ⟨rfl, reference⟩ | none
    · exact ⟨List.mem_cons_self, reference⟩
    · cases none
  | applied _ denotes ih =>
    rcases denotes.names refers with ⟨rfl, reference⟩ | refers
    · exact ⟨List.mem_cons_self, reference⟩
    · exact leave (ih refers) fun _ mem =>
        List.mem_cons_of_mem _ (List.mem_cons_of_mem _ (List.mem_append_left _ mem))
  | lastArg _ ih => exact ih (by simpa [Phrase.names] using refers)
  | comma _ _ ihFirst ihMore =>
    rw [Phrase.names, List.flatMap_cons, List.mem_append] at refers
    rcases refers with refers | refers
    · exact leave (ihFirst refers) (List.subset_append_left _ _)
    · exact leave (ihMore refers) fun _ mem =>
        List.mem_append_right _ (List.mem_cons_of_mem _ mem)
  | typeArg _ _ ih => exact ih refers
  | _ => cases refers

end RecordCodec.TypeExpr
