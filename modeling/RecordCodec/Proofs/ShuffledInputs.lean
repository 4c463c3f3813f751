import RecordCodec.Proofs.Compositional
import RecordCodec.Proofs.Shuffling

set_option autoImplicit false

/-!
# Decoding shuffled values

Two runs are compatible if they do not end in different ways: they return related results, or they
fail, or one of them does not end. A decoder ignores the order of members if its runs on a value and
on the shuffled value are. Containers ignore it if their parts do, but the elements of a set have to
stay the same, up to what equality does not notice.
-/
namespace RecordCodec

open Routine Run

namespace Routine.Run

variable {α β γ δ : Type} {R : α → β → Prop} {S : γ → δ → Prop} {r : Run α} {r' : Run β}

/-- If both runs end, they return related results or both fail. -/
def Compatible (R : α → β → Prop) (r : Run α) (r' : Run β) : Prop :=
  ∀ x x', r.run = some x → r'.run = some x' → Option.Rel R x.toOption x'.toOption

namespace Compatible

theorem refl {R : α → α → Prop} (reflexive : ∀ a, R a a) (r : Run α) : Compatible R r r := by
  intro x x' ran ran'
  cases ran.symm.trans ran'
  cases x with
  | error e => exact .none
  | ok a => exact .some (reflexive a)

theorem pure {a : α} {b : β} (related : R a b) :
    Compatible R (pure a : Run α) (pure b : Run β) := by
  intro x x' ran ran'
  cases ran
  cases ran'
  exact .some related

theorem throw (e e' : Failure) : Compatible R (throw e : Run α) (throw e' : Run β) := by
  intro x x' ran ran'
  cases ran
  cases ran'
  exact .none

theorem of_none (h : r.run = none) : Compatible R r r' := by
  intro x x' ran
  exact nomatch h.symm.trans ran

theorem of_none_right (h : r'.run = none) : Compatible R r r' := by
  intro x x' _ ran'
  exact nomatch h.symm.trans ran'

theorem mapError {f f' : Failure → Failure} (h : Compatible R r r') :
    Compatible R (r.mapError f) (r'.mapError f') := by
  intro x x' ran ran'
  obtain ⟨y, isY, rfl⟩ := Option.map_eq_some_iff.1 ran
  obtain ⟨y', isY', rfl⟩ := Option.map_eq_some_iff.1 ran'
  have related := h y y' isY isY'
  cases y <;> cases y' <;> exact related

theorem bind {f : α → Run γ} {f' : β → Run δ} (first : Compatible R r r')
    (next : ∀ a b, R a b → Compatible S (f a) (f' b)) : Compatible S (r >>= f) (r' >>= f') := by
  intro x x' ran ran'
  rw [bind_run] at ran ran'
  cases isFirst : r.run with
  | none => exact nomatch (isFirst ▸ ran :)
  | some y =>
    cases isFirst' : r'.run with
    | none => exact nomatch (isFirst' ▸ ran' :)
    | some y' =>
      rw [isFirst] at ran
      rw [isFirst'] at ran'
      have related := first y y' isFirst isFirst'
      cases y <;> cases y' <;> cases related
      · cases ran
        cases ran'
        exact .none
      case some related => exact next _ _ related x x' ran ran'

theorem not_fails (h : Compatible R r r') {a : α} (returns : r.Returns a) {e : Failure} :
    ¬ r'.Fails e :=
  fun fails => nomatch h _ _ returns fails

theorem not_returns (h : Compatible R r r') {e : Failure} (fails : r.Fails e) {b : β} :
    ¬ r'.Returns b :=
  fun returns => nomatch h _ _ fails returns

theorem related (h : Compatible R r r') {a : α} {b : β} (returns : r.Returns a)
    (returns' : r'.Returns b) : R a b := by
  cases h _ _ returns returns' with
  | some related => exact related

theorem firstSuccess {R : β → β → Prop} {failure failure' : Failure} {v w : α}
    {candidates : List (α → Run β)} (h : ∀ f ∈ candidates, Compatible R (f v) (f w)) :
    Compatible R (Converter.firstSuccess failure v candidates)
      (Converter.firstSuccess failure' w candidates) := by
  induction candidates with
  | nil => exact throw _ _
  | cons f rest ih =>
    obtain ⟨first, others⟩ := List.forall_mem_cons.1 h
    rw [Converter.firstSuccess, Converter.firstSuccess]
    cases ran : (f v).run with
    | none => exact of_none rfl
    | some x =>
      cases ran' : (f w).run with
      | none => exact of_none_right rfl
      | some x' =>
        have related := first x x' ran ran'
        cases x <;> cases x' <;> cases related
        · exact ih others
        case some related => exact pure related

end Compatible

end Routine.Run

namespace Converter

variable {mappings : Bool}

/-- Of a shuffled value it makes the instance that it makes of the value, but reordered. -/
def IgnoresOrder (mappings : Bool) (decode : Decode) : Prop :=
  ∀ v w, v.Shuffled w → Compatible (Instance.Reordered mappings) (decode v) (decode w)

/-- Scalars are not shuffled, so arrays and objects are all that matters. -/
theorem IgnoresOrder.of_cases {decode : Decode}
    (arrays : ∀ a w, Json.Shuffled (.array a) w →
      Compatible (Instance.Reordered mappings) (decode (.array a)) (decode w))
    (objects : ∀ a w, Json.Shuffled (.object a) w →
      Compatible (Instance.Reordered mappings) (decode (.object a)) (decode w)) :
    IgnoresOrder mappings decode := by
  intro v w shuffled
  cases v with
  | array a => exact arrays a w shuffled
  | object a => exact objects a w shuffled
  | _ =>
    cases shuffled
    exact .refl .refl _

section
variable {vs ws : List Json} (shuffled : List.Forall₂ Json.Shuffled vs ws)
include shuffled

theorem decodeItems_compatible {decode : Decode} (ignores : IgnoresOrder mappings decode)
    (index : Nat) : Compatible (List.Forall₂ (Instance.Reordered mappings))
      (decodeItems decode index vs) (decodeItems decode index ws) := by
  induction shuffled generalizing index with
  | nil => exact .pure .nil
  | cons first _ ih =>
    refine .bind (ignores _ _ first).mapError fun _ _ related => ?_
    exact .bind (ih _) fun _ _ others => .pure (.cons related others)

theorem decodeParts_compatible {decoders : List Decode}
    (ignore : ∀ decode ∈ decoders, IgnoresOrder mappings decode) (index : Nat) :
    Compatible (List.Forall₂ (Instance.Reordered mappings))
      (decodeParts index decoders vs) (decodeParts index decoders ws) := by
  induction shuffled generalizing index decoders with
  | nil =>
    cases decoders <;> exact .pure .nil
  | cons first _ ih =>
    cases decoders with
    | nil => exact .pure .nil
    | cons decode rest =>
      obtain ⟨ignores, others⟩ := List.forall_mem_cons.1 ignore
      refine .bind (ignores _ _ first).mapError fun _ _ related => ?_
      exact .bind (ih others _) fun _ _ others => .pure (.cons related others)

end

theorem exists_of_decodeEntries_fails {key item : Decode} {entries : List (String × Json)}
    {e : Failure} (h : (decodeEntries key item entries).Fails e) :
    ∃ entry ∈ entries,
      (∃ e', (key (.string entry.1)).Fails e') ∨ ∃ e', (item entry.2).Fails e' := by
  induction entries with
  | nil => simp [decodeEntries] at h
  | cons entry rest ih =>
    simp only [decodeEntries, Fails.bind_iff, Fails.mapError_iff, Fails.pure_iff, and_false,
      exists_false, or_false] at h
    rcases h with ⟨e', failed, -⟩ | ⟨_, -, ⟨e', failed, -⟩ | ⟨_, -, failed⟩⟩
    · exact ⟨entry, List.mem_cons_self, .inl ⟨e', failed⟩⟩
    · exact ⟨entry, List.mem_cons_self, .inr ⟨e', failed⟩⟩
    · obtain ⟨other, mem, failed⟩ := ih failed
      exact ⟨other, List.mem_cons_of_mem _ mem, failed⟩

theorem decodeEntries_compatible {key item : Decode} (ignores : IgnoresOrder mappings item)
    {a b c : List (String × Json)}
    (shuffled : List.Forall₂ (fun e e' => e.1 = e'.1 ∧ Json.Shuffled e.2 e'.2) a b)
    (permuted : b.Perm c) :
    Compatible (fun is js => ∃ ks, List.Forall₂ (fun i k => i.1 = k.1 ∧
        Instance.Reordered mappings i.2 k.2) is ks ∧ ks.Perm js)
      (decodeEntries key item a) (decodeEntries key item c) := by
  intro x x' ran ran'
  cases x with
  | ok is =>
    have first := decodeEntries_returns_iff.1 ran
    cases x' with
    | ok js =>
      obtain ⟨ks, second, reordered⟩ :=
        List.perm_comp_forall₂ permuted (decodeEntries_returns_iff.1 ran')
      refine .some ⟨ks, ?_, reordered⟩
      have between := forall₂_comp first.flip shuffled
        (T := fun i e' => ∃ e : String × Json, ((key (.string e.1)).Returns i.1 ∧
          (item e.2).Returns i.2) ∧ e.1 = e'.1 ∧ Json.Shuffled e.2 e'.2)
        fun _ _ e _ returns related => ⟨e, returns, related⟩
      refine forall₂_comp between second fun i _ e' k ⟨e, returns, isKey, related⟩ returns' => ?_
      have sameKey : (key (.string e'.1)).Returns i.1 := isKey ▸ returns.1
      exact ⟨sameKey.unique returns'.1, (ignores _ _ related).related returns.2 returns'.2⟩
    | error e =>
      obtain ⟨entry, mem, failed⟩ := exists_of_decodeEntries_fails ran'
      obtain ⟨other, memOther, isKey, related⟩ :=
        exists_of_forall₂ shuffled (permuted.mem_iff.2 mem)
      obtain ⟨i, -, returns⟩ := exists_of_forall₂ first.flip memOther
      rcases failed with ⟨e', failed⟩ | ⟨e', failed⟩
      · exact nomatch (isKey ▸ returns.1).symm.trans failed
      · exact ((ignores _ _ related).not_fails returns.2 failed).elim
  | error e =>
    cases x' with
    | error => exact .none
    | ok js =>
      have second := decodeEntries_returns_iff.1 ran'
      obtain ⟨entry, mem, failed⟩ := exists_of_decodeEntries_fails ran
      obtain ⟨other, memOther, isKey, related⟩ := exists_of_forall₂ shuffled.flip mem
      obtain ⟨i, -, returns⟩ := exists_of_forall₂ second.flip (permuted.mem_iff.1 memOther)
      rcases failed with ⟨e', failed⟩ | ⟨e', failed⟩
      · rw [isKey] at failed
        exact nomatch failed.symm.trans returns.1
      · exact ((ignores _ _ related).not_returns failed returns.2).elim

theorem decodeAny_ignoresOrder : IgnoresOrder mappings Direct.decodeAny :=
  fun _ _ shuffled => .pure (.dynamic shuffled)

theorem optional_ignoresOrder {decode : Decode} (ignores : IgnoresOrder mappings decode) :
    IgnoresOrder mappings fun v => if v.isNull then pure .null else decode v := by
  intro v w shuffled
  simp only [shuffled.isNull]
  split
  · exact .pure (.refl _)
  · exact ignores v w shuffled

theorem decodeList_ignoresOrder {form : ItemsForm} {decode : Decode} {inner : Bool}
    (ignores : IgnoresOrder inner decode)
    (building : ∀ is js, List.Forall₂ (Instance.Reordered inner) is js →
      Instance.Reordered mappings (form.build is) (form.build js)) :
    IgnoresOrder mappings (Direct.decodeList form decode) := by
  refine .of_cases (fun a w shuffled => ?_) fun a w shuffled => ?_
  · obtain ⟨b, rfl, items⟩ := shuffled.exists_of_array
    exact .bind (decodeItems_compatible items ignores 0) fun is js related =>
      .pure (building is js related)
  · obtain ⟨b, c, rfl, -⟩ := shuffled.exists_of_object
    exact .throw _ _

theorem decodeTuple_ignoresOrder {decoders : List Decode}
    (ignore : ∀ decode ∈ decoders, IgnoresOrder mappings decode) :
    IgnoresOrder mappings (decodeTuple decoders) := by
  refine .of_cases (fun a w shuffled => ?_) fun a w shuffled => ?_
  · obtain ⟨b, rfl, items⟩ := shuffled.exists_of_array
    simp only [decodeTuple, listItems?, items.length_eq]
    split
    · exact .bind (decodeParts_compatible items ignore 0) fun _ _ related =>
        .pure (.tuple_of_forall₂ related)
    · exact .throw _ _
  · obtain ⟨b, c, rfl, -⟩ := shuffled.exists_of_object
    exact .throw _ _

theorem decodeMapping_ignoresOrder {build : List (Instance × Instance) → Instance}
    {key item : Decode} (ignores : IgnoresOrder mappings item)
    (building : ∀ is ks js, List.Forall₂ (fun i k => i.1 = k.1 ∧
      Instance.Reordered mappings i.2 k.2) is ks → ks.Perm js →
      Instance.Reordered mappings (build is) (build js)) :
    IgnoresOrder mappings (Direct.decodeMapping build key item) := by
  refine .of_cases (fun a w shuffled => ?_) fun a w shuffled => ?_
  · obtain ⟨b, rfl, -⟩ := shuffled.exists_of_array
    exact .throw _ _
  · obtain ⟨b, c, rfl, -, members, permuted⟩ := shuffled.exists_of_object
    simp only [Direct.decodeMapping, mapEntries, ofExcept_ok, pure_bind]
    refine .bind (decodeEntries_compatible ignores members permuted) fun is js entries => ?_
    obtain ⟨ks, related, reordered⟩ := entries
    exact .pure (building is ks js related reordered)

theorem decodeLiteral_ignoresOrder (values : List Json) :
    IgnoresOrder mappings fun v => .ofExcept (decodeLiteral values v) := by
  refine .of_cases (fun a w shuffled => ?_) fun a w shuffled => ?_
  · obtain ⟨b, rfl, -⟩ := shuffled.exists_of_array
    rw [decodeLiteral, decodeLiteral, shuffled.contains]
    split
    · exact .pure (.dynamic shuffled)
    · exact .throw _ _
  · obtain ⟨b, c, rfl, -⟩ := shuffled.exists_of_object
    rw [decodeLiteral, decodeLiteral, shuffled.contains]
    split
    · exact .pure (.dynamic shuffled)
    · exact .throw _ _

theorem decodeEnum_ignoresOrder (declared : EnumType) :
    IgnoresOrder mappings fun v => .ofExcept (decodeEnum declared v) := by
  intro v w shuffled
  have compared : (fun e : String × Json => e.2.same w) = fun e => e.2.same v :=
    funext fun e => (shuffled.same_congr e.2).symm
  have byValue : declared.variantOfValue? w = declared.variantOfValue? v :=
    congrArg (fun test => (declared.variants.find? test).map Prod.fst) compared
  have sameVariant : variant? declared w = variant? declared v := by
    rw [variant?, variant?, byValue, shuffled.string?]
  simp only [decodeEnum, sameVariant]
  cases variant? declared v with
  | none => exact .throw _ _
  | some variant => exact .pure (.refl _)

theorem fitsValue_shuffled (ty : TypeExpr) {v w : Json} (shuffled : v.Shuffled w) :
    fitsValue ty w = fitsValue ty v := by
  obtain ⟨shape, args, literals⟩ := ty
  cases v with
  | array a =>
    obtain ⟨b, rfl, -⟩ := shuffled.exists_of_array
    cases shape with
    | primitive p => cases p <;> rfl
    | literal => exact shuffled.contains literals
    | _ => rfl
  | object a =>
    obtain ⟨b, c, rfl, -⟩ := shuffled.exists_of_object
    cases shape with
    | primitive p => cases p <;> rfl
    | literal => exact shuffled.contains literals
    | _ => rfl
  | _ =>
    cases shuffled
    rfl

/-- The tag is the same and so is the order of the arms, so the same arms are tried. -/
theorem decodeUnion_ignoresOrder {plan : UnionPlan} {decoders : List Decode}
    (ignore : ∀ decode ∈ decoders, IgnoresOrder mappings decode) :
    IgnoresOrder mappings (decodeUnion plan decoders) := by
  intro v w shuffled
  have sameTag : (w.get? plan.key).bind Json.string? = (v.get? plan.key).bind Json.string? := by
    rcases Direct.rel_cases (shuffled.get? plan.key) with
      ⟨absent, absent'⟩ | ⟨x, y, isX, isY, inner⟩
    · rw [absent, absent']
    · rw [isX, isY, Option.bind_some, Option.bind_some, inner.string?]
  have sameOrder : (fun e : UnionArm × Decode => fitsValue e.1.type w) =
      fun e => fitsValue e.1.type v :=
    funext fun e => fitsValue_shuffled e.1.type shuffled
  simp only [decodeUnion, sameTag, sameOrder]
  split
  case h_1 tag _ =>
    cases found : (plan.arms.zip decoders).find? fun e => e.1.tag == some tag with
    | none => exact .throw _ _
    | some e =>
      have mem := (List.of_mem_zip (List.mem_of_find?_eq_some found)).2
      exact ignore e.2 mem v w shuffled
  case h_2 =>
    refine .firstSuccess fun decode tried => ?_
    obtain ⟨e, mem, rfl⟩ := List.mem_map.1 tried
    exact ignore e.2 (List.of_mem_zip (mem_trialOrder.1 mem)).2 v w shuffled

end Converter

namespace Scalar

open Converter

theorem octet?_shuffled {v w : Json} (shuffled : v.Shuffled w) : octet? w = octet? v := by
  cases shuffled <;> rfl

theorem mapM_octet? {vs ws : List Json} (shuffled : List.Forall₂ Json.Shuffled vs ws) :
    ws.mapM octet? = vs.mapM octet? := by
  induction shuffled with
  | nil => rfl
  | cons first _ ih => rw [List.mapM_cons, List.mapM_cons, octet?_shuffled first, ih]

/-- Untyped positions keep arrays and objects, octets are read from arrays, and all other scalars
refuse both. -/
theorem decode_ignoresOrder {mappings : Bool} (p : Primitive) :
    IgnoresOrder mappings fun v => .ofExcept (decode p v) := by
  refine .of_cases (fun a w shuffled => ?_) fun a w shuffled => ?_
  · obtain ⟨b, rfl, items⟩ := shuffled.exists_of_array
    cases p with
    | any => exact .pure (.dynamic shuffled)
    | bytes =>
      simp only [decode, decodeBytes, mapM_octet? items]
      cases a.mapM octet? with
      | none => exact .throw _ _
      | some octets => exact .pure (.refl _)
    | _ => exact .throw _ _
  · obtain ⟨b, c, rfl, -⟩ := shuffled.exists_of_object
    cases p with
    | any => exact .pure (.dynamic shuffled)
    | _ => exact .throw _ _

end Scalar
end RecordCodec
