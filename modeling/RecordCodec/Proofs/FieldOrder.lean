import RecordCodec.Proofs.Shuffling

set_option autoImplicit false

/-!
# Fields in another order

An instance is shuffled if the fields of some of its records, at any depth, are put in another
order. Its kind, its depth and what it is equal to stay the same, and its items, its entries and the
values of its fields are shuffled in turn. Only the plain rendering shows the order of fields, and
not even that if it has no members.
-/
namespace RecordCodec

theorem forall_mem_zip_self {α : Type} {items : List α} {P : α × α → Prop}
    (h : ∀ x ∈ items, P (x, x)) : ∀ e ∈ items.zip items, P e := by
  rintro ⟨x, y⟩ mem
  obtain ⟨isItem, same⟩ := mem_of_mem_zip_self mem
  cases same
  exact h x isItem

namespace Json

mutual
/-- No object in the value has a member. -/
def isMemberless : Json → Bool
  | array items => allMemberless items
  | object members => members.isEmpty
  | _ => true
def allMemberless : List Json → Bool
  | [] => true
  | v :: rest => v.isMemberless && allMemberless rest
end

mutual
theorem isMemberless_of_same {u v : Json} (memberless : u.isMemberless = true)
    (equal : u.same v = true) : v.isMemberless = true := by
  cases u with
  | array a =>
    cases v with
    | array b => exact allMemberless_of_same memberless equal
    | _ => simp [same] at equal
  | object a =>
    cases v with
    | object b =>
      rw [isMemberless, List.isEmpty_iff] at memberless
      cases b with
      | nil => rfl
      | cons => simp [same, memberless] at equal
    | _ => simp [same] at equal
  | _ =>
    cases v with
    | array | object => simp [same] at equal
    | _ => rfl
theorem allMemberless_of_same {a b : List Json} (memberless : allMemberless a = true)
    (equal : sameItems a b = true) : allMemberless b = true := by
  cases a with
  | nil =>
    cases b with
    | nil => rfl
    | cons v rest => simp [sameItems] at equal
  | cons u others =>
    cases b with
    | nil => rfl
    | cons v rest =>
      rw [allMemberless, Bool.and_eq_true] at memberless ⊢
      rw [sameItems, Bool.and_eq_true] at equal
      exact ⟨isMemberless_of_same memberless.1 equal.1,
        allMemberless_of_same memberless.2 equal.2⟩
end

/-- The last member is kept. -/
theorem isMemberless_ofMembers {members : List (String × Json)} (nonempty : members ≠ []) :
    (ofMembers members).isMemberless = false := by
  obtain ⟨before, last, rfl⟩ := (List.eq_nil_or_concat members).resolve_left nonempty
  rw [ofMembers, isMemberless, Assoc.ofList, List.concat_eq_append, List.foldl_append]
  generalize before.foldl (fun acc e => Assoc.insert e.1 e.2 acc) [] = held
  have kept : last.1 ∈ Assoc.keys (Assoc.insert last.1 last.2 held) :=
    Assoc.mem_keys_insert.2 (.inl rfl)
  rw [List.isEmpty_eq_false_iff]
  exact fun none => List.ne_nil_of_mem kept (congrArg Assoc.keys none)

theorem not_contains {values : List Json} (memberless : ∀ u ∈ values, u.isMemberless = true)
    {v : Json} (held : v.isMemberless = false) : contains values v = false := by
  rw [contains, List.any_eq_false]
  intro u mem equal
  rw [isMemberless_of_same (memberless u mem) equal] at held
  cases held

theorem ofMembers_eq_or {a b : List (String × Json)} (even : a.length = b.length) :
    ofMembers a = ofMembers b ∨
      (ofMembers a).isMemberless = false ∧ (ofMembers b).isMemberless = false := by
  cases a with
  | nil =>
    obtain rfl := List.length_eq_zero_iff.1 even.symm
    exact .inl rfl
  | cons first rest =>
    cases b with
    | nil => cases even
    | cons =>
      exact .inr ⟨isMemberless_ofMembers (List.cons_ne_nil _ _),
        isMemberless_ofMembers (List.cons_ne_nil _ _)⟩

end Json

namespace Instance

/-- The fields of records are put in another order, at any depth, in the keys and the default of a
mapping as well. The field names of each record are distinct. -/
inductive Shuffled : Instance → Instance → Prop where
  | flat {v : Instance} : v.depth = 0 → Shuffled v v
  | seq {a b : List Instance} : a.length = b.length → (∀ e ∈ a.zip b, Shuffled e.1 e.2) →
    Shuffled (.seq a) (.seq b)
  | set {a b : List Instance} : a.length = b.length → (∀ e ∈ a.zip b, Shuffled e.1 e.2) →
    Shuffled (.set a) (.set b)
  | tuple {a b : List Instance} : a.length = b.length → (∀ e ∈ a.zip b, Shuffled e.1 e.2) →
    Shuffled (.tuple a) (.tuple b)
  | map {a b : List (Instance × Instance)} : a.length = b.length →
    (∀ e ∈ a.zip b, Shuffled e.1.1 e.2.1) → (∀ e ∈ a.zip b, Shuffled e.1.2 e.2.2) →
    Shuffled (.map a) (.map b)
  | defaultMap {a b : List (Instance × Instance)} {x y : Instance} : a.length = b.length →
    (∀ e ∈ a.zip b, Shuffled e.1.1 e.2.1) → (∀ e ∈ a.zip b, Shuffled e.1.2 e.2.2) →
    Shuffled x y → Shuffled (.defaultMap a x) (.defaultMap b y)
  | record {type : String} {a b c : List (String × Instance)} : (Assoc.keys a).Nodup →
    a.length = b.length → (∀ e ∈ a.zip b, e.1.1 = e.2.1) →
    (∀ e ∈ a.zip b, Shuffled e.1.2 e.2.2) → b.Perm c → Shuffled (.record type a) (.record type c)

theorem depthFields_perm {a b : List (String × Instance)} (permuted : a.Perm b) :
    depthFields a = depthFields b := by
  induction permuted with
  | nil => rfl
  | cons e _ ih => rw [depthFields, depthFields, ih]
  | swap e e' rest => exact Nat.max_left_comm _ _ _
  | trans _ _ ih ih' => exact ih.trans ih'

/-- Each field is looked up by itself, so the order in which they are looked up does not matter. -/
theorem sameFields_perm {a b : List (String × Instance)} (permuted : a.Perm b)
    (c : List (String × Instance)) : sameFields a c = sameFields b c := by
  induction permuted with
  | nil => rfl
  | cons e _ ih => rw [sameFields, sameFields, ih]
  | swap e e' rest =>
    rw [sameFields, sameFields, sameFields, sameFields]
    exact Bool.and_left_comm _ _ _
  | trans _ _ ih ih' => exact ih.trans ih'

theorem sameEntries_left {a b : List (Instance × Instance)}
    (h : List.Forall₂ (fun e e' => (∀ w, same e.1 w = same e'.1 w) ∧
      ∀ w, same e.2 w = same e'.2 w) a b) (c : List (Instance × Instance)) :
    sameEntries a c = sameEntries b c := by
  induction h generalizing c with
  | nil => rfl
  | cons first _ ih =>
    cases c with
    | nil => simp only [sameEntries]
    | cons e rest => rw [sameEntries, sameEntries, first.1 e.1, first.2 e.2, ih rest]

theorem depthItems_of_forall₂ {a b : List Instance}
    (h : List.Forall₂ (fun v w => v.depth = w.depth) a b) : depthItems a = depthItems b := by
  induction h with
  | nil => rfl
  | cons first _ ih => rw [depthItems, depthItems, first, ih]

theorem depthEntries_of_forall₂ {a b : List (Instance × Instance)}
    (h : List.Forall₂ (fun e e' => e.1.depth = e'.1.depth ∧ e.2.depth = e'.2.depth) a b) :
    depthEntries a = depthEntries b := by
  induction h with
  | nil => rfl
  | cons first _ ih => rw [depthEntries, depthEntries, first.1, first.2, ih]

theorem depthFields_of_forall₂ {a b : List (String × Instance)}
    (h : List.Forall₂ (fun e e' => e.2.depth = e'.2.depth) a b) :
    depthFields a = depthFields b := by
  induction h with
  | nil => rfl
  | cons first _ ih => rw [depthFields, depthFields, first, ih]

theorem itemsToJson_of_forall₂ {a b : List Instance}
    (h : List.Forall₂ (fun v w => v.toJson = w.toJson ∨
      v.toJson.isMemberless = false ∧ w.toJson.isMemberless = false) a b) :
    itemsToJson a = itemsToJson b ∨
      Json.allMemberless (itemsToJson a) = false ∧
        Json.allMemberless (itemsToJson b) = false := by
  induction h with
  | nil => exact .inl rfl
  | cons first _ ih =>
    simp only [itemsToJson, Json.allMemberless, Bool.and_eq_false_iff]
    rcases first with first | ⟨held, held'⟩
    · rcases ih with others | ⟨held, held'⟩
      · exact .inl (by rw [first, others])
      · exact .inr ⟨.inr held, .inr held'⟩
    · exact .inr ⟨.inl held, .inl held'⟩

theorem length_entriesToJson (entries : List (Instance × Instance)) :
    (entriesToJson entries).length = entries.length := by
  induction entries with
  | nil => rfl
  | cons e rest ih => exact congrArg (· + 1) ih

theorem length_fieldsToJson (fields : List (String × Instance)) :
    (fieldsToJson fields).length = fields.length := by
  induction fields with
  | nil => rfl
  | cons e rest ih => exact congrArg (· + 1) ih

namespace Shuffled

variable {v w : Instance}

theorem isNull (h : v.Shuffled w) : v.isNull = w.isNull := by
  cases h <;> rfl

theorem kindName (h : v.Shuffled w) : v.kindName = w.kindName := by
  cases h <;> rfl

theorem items? (h : v.Shuffled w) : Option.Rel (List.Forall₂ Shuffled) v.items? w.items? := by
  cases h with
  | flat isFlat =>
    cases v with
    | seq | set | tuple => cases isFlat
    | _ => exact .none
  | seq even inner | set even inner | tuple even inner =>
    exact .some (List.forall₂_iff_zip.2 ⟨even, fun mem => inner _ mem⟩)
  | _ => exact .none

theorem entries? (h : v.Shuffled w) :
    Option.Rel (List.Forall₂ fun (e e' : Instance × Instance) =>
      Shuffled e.1 e'.1 ∧ Shuffled e.2 e'.2) v.entries? w.entries? := by
  cases h with
  | flat isFlat =>
    cases v with
    | map | defaultMap => cases isFlat
    | _ => exact .none
  | map even keys values | defaultMap even keys values =>
    exact .some (List.forall₂_iff_zip.2 ⟨even, fun mem => ⟨keys _ mem, values _ mem⟩⟩)
  | _ => exact .none

theorem field? (h : v.Shuffled w) (name : String) :
    Option.Rel Shuffled (v.field? name) (w.field? name) := by
  cases h with
  | flat isFlat =>
    cases v with
    | record => cases isFlat
    | _ => exact .none
  | @record type a b c distinct even names inner permuted =>
    have related : List.Forall₂ (fun (e e' : String × Instance) =>
        e.1 = e'.1 ∧ Shuffled e.2 e'.2) a b :=
      List.forall₂_iff_zip.2 ⟨even, fun mem => ⟨names _ mem, inner _ mem⟩⟩
    have distinct' := Assoc.keys_eq_of_forall₂ related ▸ distinct
    rw [Instance.field?, Instance.field?, ← Assoc.get?_perm distinct' permuted]
    exact Assoc.get?_of_forall₂ related name
  | _ => exact .none

theorem depth (h : v.Shuffled w) : v.depth = w.depth := by
  induction h with
  | flat => rfl
  | seq even _ ih | set even _ ih | tuple even _ ih =>
    exact congrArg (· + 1) (depthItems_of_forall₂ (List.forall₂_iff_zip.2 ⟨even, ih _⟩))
  | map even _ _ keys values | defaultMap even _ _ _ keys values =>
    exact congrArg (· + 1) (depthEntries_of_forall₂
      (List.forall₂_iff_zip.2 ⟨even, fun mem => ⟨keys _ mem, values _ mem⟩⟩))
  | record _ even _ _ permuted ih =>
    have fields := depthFields_of_forall₂ (List.forall₂_iff_zip.2 ⟨even, ih _⟩)
    exact congrArg (· + 1) (fields.trans (depthFields_perm permuted))

theorem same_left (h : v.Shuffled w) (u : Instance) : same v u = same w u := by
  induction h generalizing u with
  | flat => rfl
  | seq even _ ih | set even _ ih | tuple even _ ih =>
    have items := Reordered.sameItems_left (List.forall₂_iff_zip.2 ⟨even, fun mem => ih _ mem⟩)
    cases u <;> simp only [same, items]
  | map even _ _ keys values =>
    have entries := sameEntries_left
      (List.forall₂_iff_zip.2 ⟨even, fun mem => ⟨keys _ mem, values _ mem⟩⟩)
    cases u <;> simp only [same, entries]
  | defaultMap even _ _ _ keys values default =>
    have entries := sameEntries_left
      (List.forall₂_iff_zip.2 ⟨even, fun mem => ⟨keys _ mem, values _ mem⟩⟩)
    cases u <;> simp only [same, entries, default]
  | record _ even names _ permuted ih =>
    have fields := Reordered.sameFields_left
      (List.forall₂_iff_zip.2 ⟨even, fun mem => ⟨names _ mem, ih _ mem⟩⟩)
    cases u <;> simp only [same, fields, sameFields_perm permuted, even, permuted.length_eq]

/-- The plain rendering does not show the order of fields, unless it has members. -/
theorem toJson (h : v.Shuffled w) : v.toJson = w.toJson ∨
    v.toJson.isMemberless = false ∧ w.toJson.isMemberless = false := by
  induction h with
  | flat => exact .inl rfl
  | seq even _ ih | set even _ ih | tuple even _ ih =>
    have items := itemsToJson_of_forall₂ (List.forall₂_iff_zip.2 ⟨even, fun mem => ih _ mem⟩)
    exact items.imp (congrArg Json.array) id
  | map even | defaultMap even =>
    exact Json.ofMembers_eq_or (by rw [length_entriesToJson, length_entriesToJson, even])
  | record _ even _ _ permuted =>
    refine Json.ofMembers_eq_or ?_
    rw [length_fieldsToJson, length_fieldsToJson, even, permuted.length_eq]

theorem contains (h : v.Shuffled w) {values : List Json}
    (memberless : ∀ u ∈ values, u.isMemberless = true) :
    Json.contains values v.toJson = Json.contains values w.toJson ∧
      (Json.contains values v.toJson = true → v.toJson = w.toJson) := by
  rcases h.toJson with equal | ⟨held, held'⟩
  · rw [equal]
    exact ⟨rfl, fun _ => rfl⟩
  · rw [Json.not_contains memberless held, Json.not_contains memberless held']
    exact ⟨rfl, fun found => nomatch found⟩

theorem refl (regular : v.Regular) : v.Shuffled v := by
  induction regular with
  | seq _ ih => exact .seq rfl (forall_mem_zip_self ih)
  | set _ ih => exact .set rfl (forall_mem_zip_self ih)
  | tuple _ ih => exact .tuple rfl (forall_mem_zip_self ih)
  | map _ _ _ keys values =>
    exact .map rfl (forall_mem_zip_self keys) (forall_mem_zip_self values)
  | defaultMap _ _ _ _ keys values default =>
    exact .defaultMap rfl (forall_mem_zip_self keys) (forall_mem_zip_self values) default
  | record distinct _ ih =>
    exact .record distinct rfl (forall_mem_zip_self fun _ _ => rfl) (forall_mem_zip_self ih)
      (.refl _)
  | _ => exact .flat rfl

end Shuffled

/-- The keys and the default of a mapping may be shuffled as well. -/
theorem Rearranged.shuffled {v w : Instance} (h : Rearranged v w) (regular : v.Regular) :
    v.Shuffled w := by
  induction h with
  | refl v => exact .refl regular
  | seq even _ ih =>
    cases regular with
    | seq items => exact .seq even fun e mem => ih e mem (items _ (List.of_mem_zip mem).1)
  | set even _ ih =>
    cases regular with
    | set items => exact .set even fun e mem => ih e mem (items _ (List.of_mem_zip mem).1)
  | tuple even _ ih =>
    cases regular with
    | tuple items => exact .tuple even fun e mem => ih e mem (items _ (List.of_mem_zip mem).1)
  | map same _ ih =>
    cases regular with
    | map _ keys values =>
      refine .map (by simpa using congrArg List.length same) (fun e mem => ?_) fun e mem =>
        ih e mem (values _ (List.of_mem_zip mem).1)
      rw [← fst_eq_of_mem_zip same mem]
      exact .refl (keys _ (List.of_mem_zip mem).1)
  | defaultMap default same _ ih =>
    cases regular with
    | defaultMap _ keys values regularDefault =>
      refine .defaultMap (by simpa using congrArg List.length same) (fun e mem => ?_)
        (fun e mem => ih e mem (values _ (List.of_mem_zip mem).1)) (.refl regularDefault)
      rw [← fst_eq_of_mem_zip same mem]
      exact .refl (keys _ (List.of_mem_zip mem).1)
  | record names _ permuted ih =>
    cases regular with
    | record distinct values =>
      exact .record distinct (by simpa using congrArg List.length names)
        (fun e mem => fst_eq_of_mem_zip names mem)
        (fun e mem => ih e mem (values _ (List.of_mem_zip mem).1)) permuted

end Instance
end RecordCodec
