import RecordCodec.Proofs.ReferencedNames
import RecordCodec.Proofs.SampleDecoding
import RecordCodec.Proofs.SampleGroups

set_option autoImplicit false

/-!
# What drafted records refer to

A record is listed before the records that it refers to, and these are all listed. The types are
drafted so. They are read back so if a type can hold the name of every record.
-/
namespace RecordCodec

namespace TypeExpr

theorem exists_of_mem_intercalate {token mark : Token} {parts : List (List Token)}
    (mem : token ∈ [mark].intercalate parts) : token = mark ∨ ∃ part ∈ parts, token ∈ part := by
  induction parts with
  | nil => cases mem
  | cons part parts ih =>
    cases parts with
    | nil => exact .inr ⟨part, List.mem_cons_self, by simpa using mem⟩
    | cons next parts =>
      rw [List.intercalate_cons_cons, List.mem_append, List.mem_append, List.mem_singleton] at mem
      rcases mem with (mem | mem) | mem
      · exact .inr ⟨part, List.mem_cons_self, mem⟩
      · exact .inl mem
      · exact (ih mem).imp_right fun ⟨part, isPart, mem⟩ =>
          ⟨part, List.mem_cons_of_mem _ isPart, mem⟩

theorem tokensOfAll_eq (args : List TypeExpr) : tokensOfAll args = args.map tokens := by
  induction args with
  | nil => rfl
  | cons arg args ih => rw [tokensOfAll, ih, List.map_cons]

theorem ident_mem_bracketed {head word : String} {args : List TypeExpr}
    (mem : .ident word ∈ bracketed head (tokensOfAll args)) :
    word = head ∨ ∃ arg ∈ args, .ident word ∈ arg.tokens := by
  rw [bracketed, tokensOfAll_eq] at mem
  simp only [List.mem_cons, List.mem_append, List.not_mem_nil, or_false, reduceCtorEq,
    Token.ident.injEq, false_or] at mem
  refine mem.imp_right fun mem => ?_
  obtain ⟨_, isPart, mem⟩ :=
    (exists_of_mem_intercalate mem).resolve_left Token.noConfusion
  obtain ⟨arg, isArg, rfl⟩ := List.mem_map.1 isPart
  exact ⟨arg, isArg, mem⟩

end TypeExpr

namespace Inference

open TypeExpr (parse Nameable IsReference)

section Listing

variable {decls more : List Document.RecordDecl} {ty : TypeExpr}

theorem IsDraft.mono (subset : decls ⊆ more) (h : IsDraft decls ty) : IsDraft more ty := by
  induction h with
  | any => exact .any
  | scalar known => exact .scalar known
  | sequence _ ih => exact .sequence ih
  | record isDecl _ ih => exact .record (subset isDecl) ih
  | optional _ notOptional ih => exact .optional ih notOptional
  | union two arms _ ih => exact .union two arms ih

theorem IsDraftedRecord.mono {decl : Document.RecordDecl} (subset : decls ⊆ more)
    (h : IsDraftedRecord decls decl) : IsDraftedRecord more decl := by
  obtain ⟨name, fields, same, types⟩ := h
  exact ⟨name, fields, same, fun e mem => (types e mem).mono subset⟩

/-- The types of each record are drafted beside the records that are listed after it. -/
def ListedInOrder : List Document.RecordDecl → Prop
  | [] => True
  | decl :: rest => IsDraftedRecord rest decl ∧ ListedInOrder rest

theorem ListedInOrder.append (first : ListedInOrder decls) (second : ListedInOrder more) :
    ListedInOrder (decls ++ more) := by
  induction decls with
  | nil => exact second
  | cons decl decls ih =>
    exact ⟨first.1.mono (List.subset_append_left _ _), ih first.2⟩

theorem ListedInOrder.split {before after : List Document.RecordDecl} {decl : Document.RecordDecl}
    (h : ListedInOrder (before ++ decl :: after)) : IsDraftedRecord after decl := by
  induction before with
  | nil => exact h.1
  | cons first before ih => exact ih h.2

def ListsInOrder (typing : Typing) : Prop :=
  ∀ taken hint values, ListedInOrder (typing taken hint values).records

variable {typing : Typing}

theorem draftFields_listed (listed : ListsInOrder typing) (group : List Members)
    (taken keys : List String) :
    ListedInOrder (draftFields typing group taken keys).records := by
  induction keys generalizing taken with
  | nil => trivial
  | cons key keys ih => exact (listed _ _ _).append (ih _)

theorem draftRecord_listed {n : Nat} (listed : ListsInOrder (typeWithin n)) (taken : List String)
    (hint : String) (group : List Members) :
    ListedInOrder (draftRecord (typeWithin n) taken hint group).records := by
  have fields := draftFields_listed listed group (taken ++ [freeName taken hint])
    (distinctKeys group)
  obtain ⟨-, types, written, covers⟩ := draftFields_sound (typeWithin_sound n) group
    (List.Subset.refl (draftFields (typeWithin n) group (taken ++ [freeName taken hint])
      (distinctKeys group)).records)
  refine ⟨⟨freeName taken hint, types, ?_, covers.types⟩, fields⟩
  rw [written]
  rfl

/-- On the bound: what is inside arrays and objects is nested less deep. -/
theorem typeWithin_listed (n : Nat) : ListsInOrder (typeWithin n) := by
  induction n with
  | zero => exact fun _ _ _ => trivial
  | succ n ih =>
    intro taken hint values
    rw [typeWithin]
    refine ListedInOrder.append ?_ ?_
    · unfold draftItems
      split
      · trivial
      · trivial
      · exact ih _ _ _
    · unfold draftObjects
      split
      · trivial
      · exact draftRecord_listed ih _ _ _

end Listing

section References

variable {decls : List Document.RecordDecl} {ty : TypeExpr} {word : String}

theorem IsDraft.referencedNames_subset (h : IsDraft decls ty) :
    ty.referencedNames ⊆ namesOf decls := by
  intro word refers
  induction h with
  | any => cases refers
  | scalar => cases refers
  | @record name fields isDecl =>
    obtain rfl : word = name := List.mem_singleton.1 refers
    exact List.mem_map.2 ⟨_, isDecl, rfl⟩
  | sequence _ ih =>
    obtain ⟨item, mem, refers⟩ := (TypeExpr.mem_referencedNames_apply rfl).1 refers
    exact ih (List.mem_singleton.1 mem ▸ refers)
  | optional _ _ ih =>
    obtain ⟨inner, mem, refers⟩ := (TypeExpr.mem_referencedNames_apply rfl).1 refers
    exact ih (List.mem_singleton.1 mem ▸ refers)
  | union _ _ _ ih =>
    obtain ⟨arm, mem, refers⟩ := (TypeExpr.mem_referencedNames_apply rfl).1 refers
    exact ih arm mem refers

theorem IsDraft.mem_of_token (h : IsDraft decls ty) (mem : .ident word ∈ ty.tokens)
    (reference : IsReference word) : word ∈ namesOf decls := by
  have notHead : ∀ {head : String}, TypeExpr.headOf head ≠ .plain → word ≠ head := by
    rintro head generic rfl
    exact generic reference.1
  induction h with
  | any =>
    obtain rfl : word = "Any" := TypeExpr.Token.ident.inj (List.mem_singleton.1 mem)
    cases reference.2
  | @scalar p known =>
    obtain rfl : word = p.name := TypeExpr.Token.ident.inj (List.mem_singleton.1 mem)
    have isPrimitive : ∀ p : Primitive, Primitive.ofName? p.name ≠ none := by
      intro p
      cases p <;> nofun
    exact absurd reference.2 (isPrimitive p)
  | @record name fields isDecl =>
    obtain rfl : word = name := TypeExpr.Token.ident.inj (List.mem_singleton.1 mem)
    exact List.mem_map.2 ⟨_, isDecl, rfl⟩
  | sequence _ ih =>
    obtain ⟨item, isItem, mem⟩ :=
      (TypeExpr.ident_mem_bracketed mem).resolve_left (notHead (by decide))
    exact ih (List.mem_singleton.1 isItem ▸ mem)
  | optional _ _ ih =>
    obtain ⟨inner, isInner, mem⟩ :=
      (TypeExpr.ident_mem_bracketed mem).resolve_left (notHead (by decide))
    exact ih (List.mem_singleton.1 isInner ▸ mem)
  | union _ _ _ ih =>
    obtain ⟨arm, isArm, mem⟩ :=
      (TypeExpr.ident_mem_bracketed mem).resolve_left (notHead (by decide))
    exact ih arm isArm mem

theorem IsDraft.printable (nameable : ∀ decl ∈ decls, Nameable decl.name) (h : IsDraft decls ty) :
    ty.Printable := by
  have node : ∀ {shape : Shape} {args : List TypeExpr}, shape.declaredName? = none →
      (∀ arg ∈ args, arg.Printable) → (TypeExpr.apply shape args).Printable :=
    fun noName each => .mk (fun _ isName => by cases noName.symm.trans isName) nofun each
  induction h with
  | any => exact node rfl nofun
  | scalar => exact node rfl nofun
  | record isDecl =>
    refine .mk (fun name isName => ?_) nofun nofun
    cases isName
    exact nameable _ isDecl
  | sequence _ ih => exact node rfl (List.forall_mem_singleton.2 ih)
  | optional _ _ ih => exact node rfl (List.forall_mem_singleton.2 ih)
  | union _ _ _ ih => exact node rfl ih

/-- What is read from the text of a drafted type refers to the records only, if a type can hold
their names. It need not be the type that was drafted. -/
theorem IsDraft.referencedNames_of_parse (nameable : ∀ decl ∈ decls, Nameable decl.name)
    (h : IsDraft decls ty) {read : TypeExpr} (isRead : parse ty.text = some (.ok read)) :
    read.referencedNames ⊆ namesOf decls := by
  intro word refers
  obtain ⟨lexemes, lexed, tokens⟩ := (h.printable nameable).lex
  rw [TypeExpr.parse_of_lex lexed, Option.some_inj] at isRead
  have derived := TypeExpr.parseAll_eq_ok_iff.1 isRead
  rw [tokens] at derived
  obtain ⟨mem, reference⟩ := derived.names refers
  exact h.mem_of_token mem reference

end References

section Documents

/-- The type of each field, as it is written down, refers to records that are listed later. -/
def RefersAhead (records : List Document.RecordDecl) : Prop :=
  ∀ before decl after, records = before ++ decl :: after → ∀ field ∈ decl.fields, ∀ ty,
    parse field.type = some (.ok ty) → ty.referencedNames ⊆ namesOf after

/-- The type that each field was drafted with refers to records that are listed later. -/
def DraftedAhead (records : List Document.RecordDecl) : Prop :=
  ∀ before decl after, records = before ++ decl :: after → ∀ field ∈ decl.fields, ∃ ty : TypeExpr,
    field.type = ty.text ∧ ty.referencedNames ⊆ namesOf after

theorem IsDraftedRecord.exists_type {decls : List Document.RecordDecl} {decl : Document.RecordDecl}
    (h : IsDraftedRecord decls decl) {field : Document.FieldDecl} (isField : field ∈ decl.fields) :
    ∃ ty, field.type = ty.text ∧ IsDraft decls ty := by
  obtain ⟨name, fields, rfl, types⟩ := h
  obtain ⟨e, mem, rfl⟩ := List.mem_map.1 isField
  exact ⟨e.2, rfl, types e mem⟩

theorem ListedInOrder.draftedAhead {records : List Document.RecordDecl}
    (h : ListedInOrder records) : DraftedAhead records := by
  rintro before decl after rfl field isField
  obtain ⟨ty, written, draft⟩ := h.split.exists_type isField
  exact ⟨ty, written, draft.referencedNames_subset⟩

theorem ListedInOrder.refersAhead {records : List Document.RecordDecl} (h : ListedInOrder records)
    (nameable : ∀ decl ∈ records, Nameable decl.name) : RefersAhead records := by
  rintro before decl after rfl field isField read isRead
  obtain ⟨ty, written, draft⟩ := h.split.exists_type isField
  rw [written] at isRead
  refine draft.referencedNames_of_parse (fun other mem => nameable other ?_) isRead
  exact List.mem_append_right _ (List.mem_cons_of_mem _ mem)

/-- What the records of a draft have to do with the sample and with one another. -/
structure Outlines (root : String) (sample : Json) (samples : List Members)
    (records : List Document.RecordDecl) : Prop where
  distinct : (namesOf records).Nodup
  root : (namesOf records).head? = some (baseName root)
  /-- Each record comes from a group, and the first one from the samples themselves. -/
  groups : List.Forall₂ DraftedFrom records (groupsFrom (groupsWithin sample.depth) samples)
  /-- No object of the sample is left out. -/
  complete : ∀ members, sample.Encloses (.object members) →
    ∃ group ∈ groupsFrom (groupsWithin sample.depth) samples, members ∈ group
  drafted : DraftedAhead records
  /-- A name that a type cannot hold may be read as other names. -/
  read : (∀ decl ∈ records, Nameable decl.name) → RefersAhead records

/-- The records of a draft have names of their own, the root comes first and each record before
those that it refers to, and the fields of each record are those of the objects that it was drafted
from. -/
theorem draft_outlines {root : String} {sample : Json} {d : Document}
    (drafted : draft root sample = .ok d) :
    ∃ samples, samplesOf sample = .ok samples ∧ Outlines root sample samples d.records := by
  obtain ⟨samples, isSamples, isDraft⟩ := bind_eq_ok_iff.1 drafted
  obtain rfl := Except.ok.inj isDraft
  have listed := draftRecord_listed (typeWithin_listed sample.depth) [] root samples
  refine ⟨samples, isSamples, (draft_sound drafted isSamples).1, ?_,
    draft_grouped drafted isSamples, fun _ => exists_group_of_sample isSamples,
    listed.draftedAhead, listed.refersAhead⟩
  have first : freeName [] root = baseName root := rfl
  rw [← first]
  rfl

theorem draft_outlines_customer :
    draft "User" (.object customer) = .ok customerDocument ∧
      (∃ samples, samplesOf (.object customer) = .ok samples ∧
        Outlines "User" (.object customer) samples customerDocument.records) ∧
      RefersAhead customerDocument.records := by
  have drafted : draft "User" (.object customer) = .ok customerDocument := rfl
  have nameable : ∀ decl ∈ customerDocument.records, Nameable decl.name := by decide +kernel
  obtain ⟨samples, isSamples, outlines⟩ := draft_outlines drafted
  exact ⟨drafted, ⟨samples, isSamples, outlines⟩, outlines.read nameable⟩

def barSample : Json := .object [("x|y", .object [("a", .ofInt64 1)])]

def barDocument : Document where
  records := [declOf "Root" [("x|y", .named "X|y")], declOf "X|y" [("a", .primitive .int)]]

/-- A bar in a key gets into the name of a record. In a type the name is read as a union of two
records, neither of which is there. -/
theorem not_draft_outlines_bar :
    draft "Root" barSample = .ok barDocument ∧
      ∃ decl ∈ barDocument.records, ∃ field ∈ decl.fields, ∃ ty,
        parse field.type = some (.ok ty) ∧ ∃ name ∈ ty.referencedNames,
          name ∉ namesOf barDocument.records := by
  refine ⟨by rfl, _, List.mem_cons_self, _, List.mem_cons_self,
    .union [.named "X", .named "y"], by rfl, "X", by decide, by decide⟩

end Documents

end Inference
end RecordCodec
