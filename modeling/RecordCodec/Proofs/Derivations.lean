import RecordCodec.Proofs.Grammar

set_option autoImplicit false

/-!
# Parsing by the grammar

The parser reads just what the grammar derives. What it returns was derived, by induction on its
fuel; what is derived it reads, by induction on the derivation, as long as the tokens after it do
not go on with it.
-/
namespace RecordCodec.TypeExpr

/-! ### What is read was derived -/

def Phrase.ReadBy (finish fuel : Nat) (ts rest : List Lexeme) : Phrase → Prop
  | type ty => parseUnion finish fuel ts = .ok (ty, rest)
  | bars tys => parseArms finish fuel ts = .ok (tys, rest)
  | term ty => parseTerm finish fuel ts = .ok (ty, rest)
  | args literals contents => ∃ found, found.map Argument.content = contents ∧
    parseArgs finish literals fuel ts = .ok (found, rest)
  | arg literals content => ∃ found, found.content = content ∧
    parseArg finish literals fuel ts = .ok (found, rest)

def Phrase.DerivedFrom (ts rest : List Lexeme) (phrase : Phrase) : Prop :=
  ∃ part, ts = part ++ rest ∧ Derives (part.map Lexeme.token) phrase

section Soundness

variable {finish fuel : Nat} {ts rest : List Lexeme}
  (ih : ∀ {ts rest : List Lexeme} (phrase : Phrase), phrase.ReadBy finish fuel ts rest →
    phrase.DerivedFrom ts rest)
include ih

theorem derivedFrom_type {ty : TypeExpr}
    (h : parseUnion finish (fuel + 1) ts = .ok (ty, rest)) :
    (Phrase.type ty).DerivedFrom ts rest := by
  rw [parseUnion] at h
  obtain ⟨⟨first, afterFirst⟩, isFirst, h⟩ := bind_eq_ok_iff.1 h
  obtain ⟨⟨more, afterMore⟩, areMore, h⟩ := bind_eq_ok_iff.1 h
  cases h
  obtain ⟨part, rfl, derived⟩ := ih (.term first) isFirst
  obtain ⟨others, rfl, derived'⟩ := ih (.bars more) areMore
  refine ⟨part ++ others, (List.append_assoc _ _ _).symm, ?_⟩
  rw [List.map_append]
  exact .type derived derived'

theorem derivedFrom_bars {tys : List TypeExpr}
    (h : parseArms finish (fuel + 1) ts = .ok (tys, rest)) :
    (Phrase.bars tys).DerivedFrom ts rest := by
  rw [parseArms.eq_def] at h
  simp only at h
  split at h
  case h_1 offset ts =>
    obtain ⟨⟨arm, afterArm⟩, isArm, h⟩ := bind_eq_ok_iff.1 h
    obtain ⟨⟨more, afterMore⟩, areMore, h⟩ := bind_eq_ok_iff.1 h
    cases h
    obtain ⟨part, rfl, derived⟩ := ih (.term arm) isArm
    obtain ⟨others, rfl, derived'⟩ := ih (.bars more) areMore
    refine ⟨⟨.pipe, offset⟩ :: (part ++ others), by simp, ?_⟩
    rw [List.map_cons, List.map_append]
    exact .bar derived derived'
  case h_2 =>
    cases h
    exact ⟨[], rfl, .noBars⟩

theorem derivedFrom_term {ty : TypeExpr}
    (h : parseTerm finish (fuel + 1) ts = .ok (ty, rest)) :
    (Phrase.term ty).DerivedFrom ts rest := by
  rw [parseTerm.eq_def] at h
  simp only at h
  split at h
  case h_1 => cases h
  case h_2 name offset opening ts =>
    obtain ⟨⟨args, afterArgs⟩, areArgs, closed⟩ := bind_eq_ok_iff.1 h
    obtain ⟨inner, rfl, derived⟩ := ih (.args _ _) ⟨args, rfl, areArgs⟩
    split at closed
    case h_1 _ closing _ isClosed =>
      obtain ⟨ty, built, same⟩ := bind_eq_ok_iff.1 closed
      cases same
      obtain rfl : afterArgs = _ := isClosed
      refine ⟨⟨.ident name, offset⟩ :: ⟨.openBracket, opening⟩ ::
        (inner ++ [⟨.closeBracket, closing⟩]), by simp, ?_⟩
      rw [List.map_cons, List.map_cons, List.map_append]
      exact .applied derived (build_eq_ok_iff.1 built)
    case h_2 => cases closed
  case h_3 name offset ts _ =>
    obtain ⟨ty, built, h⟩ := bind_eq_ok_iff.1 h
    cases h
    exact ⟨[⟨.ident name, offset⟩], rfl, .name (build_eq_ok_iff.1 built)⟩
  case h_4 => cases h

theorem derivedFrom_args {literals : Bool} {found : List Argument}
    (h : parseArgs finish literals (fuel + 1) ts = .ok (found, rest)) :
    (Phrase.args literals (found.map Argument.content)).DerivedFrom ts rest := by
  rw [parseArgs.eq_def] at h
  simp only at h
  split at h
  case h_1 =>
    cases h
    exact ⟨[], rfl, .noArgs⟩
  case h_2 =>
    obtain ⟨⟨arg, afterArg⟩, isArg, continued⟩ := bind_eq_ok_iff.1 h
    obtain ⟨part, rfl, derived⟩ := ih (.arg _ _) ⟨arg, rfl, isArg⟩
    split at continued
    case h_1 _ offset ts isComma =>
      obtain ⟨⟨more, afterMore⟩, areMore, same⟩ := bind_eq_ok_iff.1 continued
      cases same
      obtain rfl : afterArg = _ := isComma
      obtain ⟨others, rfl, derived'⟩ := ih (.args _ _) ⟨more, rfl, areMore⟩
      refine ⟨part ++ ⟨.comma, offset⟩ :: others, by simp, ?_⟩
      rw [List.map_append, List.map_cons]
      exact .comma derived derived'
    case h_2 =>
      cases continued
      exact ⟨part, rfl, .lastArg derived⟩

theorem derivedFrom_typeArg {literals : Bool} {offset : Nat} {found : Argument}
    (noValue : literals = true → ∀ lexeme ∈ ts.head?, ∀ text, lexeme.token = .ident text →
      literalName? text = none)
    (h : (parseUnion finish fuel ts).map (fun (ty, ts) => (Argument.type ty offset, ts)) =
      .ok (found, rest)) : (Phrase.arg literals found.content).DerivedFrom ts rest := by
  obtain ⟨⟨ty, afterType⟩, isType, same⟩ := map_eq_ok_iff.1 h
  cases same
  obtain ⟨part, rfl, derived⟩ := ih (.type ty) isType
  refine ⟨part, rfl, .typeArg derived fun isLiteral token isHead text isName => ?_⟩
  cases part with
  | nil => cases isHead
  | cons lexeme others =>
    cases isHead
    exact noValue isLiteral lexeme rfl text isName

theorem derivedFrom_arg {literals : Bool} {found : Argument}
    (h : parseArg finish literals (fuel + 1) ts = .ok (found, rest)) :
    (Phrase.arg literals found.content).DerivedFrom ts rest := by
  rw [parseArg.eq_def] at h
  simp only at h
  split at h
  case h_1 => cases h
  case h_2 offset ts =>
    cases h
    exact ⟨[⟨.ellipsis, offset⟩], rfl, .ellipsis⟩
  case h_3 s offset ts =>
    cases h
    exact ⟨[⟨.str s, offset⟩], rfl, .string s⟩
  case h_4 n offset ts =>
    cases h
    exact ⟨[⟨.num n, offset⟩], rfl, .number n⟩
  case h_5 offset ts =>
    split at h
    case h_1 closing ts =>
      cases h
      exact ⟨[⟨.openParen, offset⟩, ⟨.closeParen, closing⟩], rfl, .emptyTuple⟩
    case h_2 => cases h
  case h_6 token offset ts _ _ _ _ =>
    split at h
    case h_1 _ _ name _ _ _ _ =>
      split at h
      case h_1 v isValue =>
        cases h
        exact ⟨[⟨.ident name, offset⟩], rfl, .value isValue⟩
      case h_2 noValue =>
        refine derivedFrom_typeArg ih (fun _ => ?_) h
        rintro _ ⟨⟩ _ ⟨⟩
        exact noValue
    case h_2 notName =>
      refine derivedFrom_typeArg ih (fun isLiteral => ?_) h
      rintro _ ⟨⟩ text isName
      exact absurd isName (notName text isLiteral)

end Soundness

/-- Whatever the parser reads was derived, by induction on its fuel. -/
theorem Phrase.derivedFrom {finish fuel : Nat} {ts rest : List Lexeme} (phrase : Phrase)
    (h : phrase.ReadBy finish fuel ts rest) : phrase.DerivedFrom ts rest := by
  induction fuel generalizing ts rest phrase with
  | zero =>
    cases phrase with
    | type => cases h
    | bars => cases h
    | term => cases h
    | args =>
      obtain ⟨_, -, read⟩ := h
      cases read
    | arg =>
      obtain ⟨_, -, read⟩ := h
      cases read
  | succ fuel ih =>
    cases phrase with
    | type => exact derivedFrom_type ih h
    | bars => exact derivedFrom_bars ih h
    | term => exact derivedFrom_term ih h
    | args =>
      obtain ⟨_, rfl, read⟩ := h
      exact derivedFrom_args ih read
    | arg =>
      obtain ⟨_, rfl, read⟩ := h
      exact derivedFrom_arg ih read

/-! ### What is derived is read -/

def Phrase.fuel (n : Nat) : Phrase → Nat
  | term _ => 4 * n - 1
  | type _ => 4 * n
  | bars _ => 4 * n + 1
  | arg _ _ => 4 * n + 1
  | args _ _ => 4 * n + 2

/-- The tokens after the phrase do not go on with it. -/
def Phrase.Ends (rest : List Lexeme) : Phrase → Prop
  | term _ => ∀ lexeme ∈ rest.head?, lexeme.token ≠ .openBracket
  | args _ _ => ∃ stop others, rest = ⟨.closeBracket, stop⟩ :: others
  | _ => ∀ lexeme ∈ rest.head?, lexeme.token ≠ .openBracket ∧ lexeme.token ≠ .pipe

/-- The parser reads the phrase wherever the tokens stand. -/
def Phrase.ReadFrom (part : List Token) (phrase : Phrase) : Prop :=
  ∀ (finish fuel : Nat) {ts rest : List Lexeme}, ts.map Lexeme.token = part →
    phrase.fuel part.length ≤ fuel → phrase.Ends rest → phrase.ReadBy finish fuel (ts ++ rest) rest

section Completeness

variable {literals : Bool} {part first more : List Token} {ty : TypeExpr} {tys : List TypeExpr}
  {content : Content} {contents : List Content}

theorem exists_lexeme {token : Token} {ts : List Lexeme}
    (written : ts.map Lexeme.token = token :: more) :
    ∃ offset others, ts = ⟨token, offset⟩ :: others ∧ others.map Lexeme.token = more := by
  obtain ⟨⟨_, offset⟩, others, rfl, rfl, areOthers⟩ := List.map_eq_cons_iff.1 written
  exact ⟨offset, others, rfl, areOthers⟩

theorem exists_only_lexeme {token : Token} {ts : List Lexeme}
    (written : ts.map Lexeme.token = [token]) : ∃ offset, ts = [⟨token, offset⟩] := by
  obtain ⟨offset, others, rfl, none⟩ := exists_lexeme written
  exact ⟨offset, by rw [List.map_eq_nil_iff.1 none]⟩

theorem read_arms (starts : first ≠ []) (barsStart : ∀ token ∈ more.head?, token = .pipe)
    (term : (Phrase.term ty).ReadFrom first) (bars : (Phrase.bars tys).ReadFrom more)
    (finish fuel : Nat) {ts rest : List Lexeme} (written : ts.map Lexeme.token = first ++ more)
    (enough : 4 * (first.length + more.length) ≤ fuel + 1) (ends : (Phrase.bars tys).Ends rest) :
    ∃ afterFirst, parseTerm finish fuel (ts ++ rest) = .ok (ty, afterFirst) ∧
      parseArms finish fuel afterFirst = .ok (tys, rest) := by
  obtain ⟨before, after, rfl, writtenFirst, writtenMore⟩ := List.map_eq_append_iff.1 written
  have positive := List.length_pos_of_ne_nil starts
  have noBracket : (Phrase.term ty).Ends (after ++ rest) := by
    intro lexeme isNext isBracket
    cases after with
    | nil => exact (ends lexeme isNext).1 isBracket
    | cons lexeme' after =>
      cases isNext
      have isPipe := barsStart lexeme.token (by rw [← writtenMore]; rfl)
      rw [isPipe] at isBracket
      cases isBracket
  refine ⟨after ++ rest, ?_, bars finish fuel writtenMore (by simp only [Phrase.fuel]; omega) ends⟩
  rw [List.append_assoc]
  exact term finish fuel writtenFirst (by simp only [Phrase.fuel]; omega) noBracket

theorem readFrom_type (starts : first ≠ []) (barsStart : ∀ token ∈ more.head?, token = .pipe)
    (term : (Phrase.term ty).ReadFrom first) (bars : (Phrase.bars tys).ReadFrom more) :
    (Phrase.type (joined ty tys)).ReadFrom (first ++ more) := by
  intro finish fuel ts rest written enough ends
  have positive := List.length_pos_of_ne_nil starts
  rw [Phrase.fuel, List.length_append] at enough
  obtain ⟨fuel, rfl⟩ : ∃ n, fuel = n + 1 := ⟨fuel - 1, by omega⟩
  obtain ⟨afterFirst, readFirst, readMore⟩ :=
    read_arms starts barsStart term bars finish fuel written enough ends
  rw [Phrase.ReadBy, parseUnion]
  simp only [readFirst, readMore, bind, Except.bind]
  rfl

theorem readFrom_bar (starts : first ≠ []) (barsStart : ∀ token ∈ more.head?, token = .pipe)
    (term : (Phrase.term ty).ReadFrom first) (bars : (Phrase.bars tys).ReadFrom more) :
    (Phrase.bars (ty :: tys)).ReadFrom (.pipe :: (first ++ more)) := by
  intro finish fuel ts rest written enough ends
  rw [Phrase.fuel, List.length_cons, List.length_append] at enough
  obtain ⟨fuel, rfl⟩ : ∃ n, fuel = n + 1 := ⟨fuel - 1, by omega⟩
  obtain ⟨offset, ts, rfl, writtenArms⟩ := exists_lexeme written
  obtain ⟨afterFirst, readFirst, readMore⟩ :=
    read_arms starts barsStart term bars finish fuel writtenArms (by omega) ends
  rw [Phrase.ReadBy, List.cons_append, parseArms]
  simp only [readFirst, readMore, bind, Except.bind]

theorem readFrom_noBars : (Phrase.bars []).ReadFrom [] := by
  intro finish fuel ts rest written enough ends
  obtain rfl := List.map_eq_nil_iff.1 written
  obtain ⟨fuel, rfl⟩ : ∃ n, fuel = n + 1 := ⟨fuel - 1, by simp only [Phrase.fuel] at enough; omega⟩
  rw [Phrase.ReadBy, List.nil_append, parseArms]
  rintro offset others rfl
  exact (ends _ rfl).2 rfl

theorem readFrom_name {name : String} (denotes : Denotes name none ty) :
    (Phrase.term ty).ReadFrom [.ident name] := by
  intro finish fuel ts rest written enough ends
  obtain ⟨fuel, rfl⟩ : ∃ n, fuel = n + 1 := ⟨fuel - 1, by simp [Phrase.fuel] at enough; omega⟩
  obtain ⟨offset, rfl⟩ := exists_only_lexeme written
  have built : build name offset none = .ok ty := build_eq_ok_iff.2 denotes
  rw [Phrase.ReadBy, List.singleton_append, parseTerm]
  · simp only [built, bind, Except.bind]
  · rintro bracket others rfl
    exact ends _ rfl rfl

theorem readFrom_applied {name : String} (args : (Phrase.args (name == "Literal") contents).ReadFrom
    part) (denotes : Denotes name (some contents) ty) :
    (Phrase.term ty).ReadFrom (.ident name :: .openBracket :: (part ++ [.closeBracket])) := by
  intro finish fuel ts rest written enough _
  simp only [Phrase.fuel, List.length_cons, List.length_append, List.length_nil] at enough
  obtain ⟨fuel, rfl⟩ : ∃ n, fuel = n + 1 := ⟨fuel - 1, by omega⟩
  obtain ⟨offset, ts, rfl, writtenRest⟩ := exists_lexeme written
  obtain ⟨start, ts, rfl, writtenArgs⟩ := exists_lexeme writtenRest
  obtain ⟨inner, last, rfl, writtenInner, isLast⟩ := List.map_eq_append_iff.1 writtenArgs
  obtain ⟨stop, rfl⟩ := exists_only_lexeme isLast
  have closes : (Phrase.args (name == "Literal") contents).Ends (⟨.closeBracket, stop⟩ :: rest) :=
    ⟨stop, rest, rfl⟩
  obtain ⟨found, areContents, read⟩ :=
    args finish fuel writtenInner (by simp only [Phrase.fuel]; omega) closes
  have built : build name offset (some found) = .ok ty :=
    build_eq_ok_iff.2 (by rw [Option.map_some, areContents]; exact denotes)
  rw [Phrase.ReadBy, List.cons_append, List.cons_append, List.append_assoc, List.singleton_append,
    parseTerm]
  simp only [read, bind, Except.bind, built]

theorem readFrom_noArgs : (Phrase.args literals []).ReadFrom [] := by
  intro finish fuel ts rest written enough ends
  obtain rfl := List.map_eq_nil_iff.1 written
  obtain ⟨fuel, rfl⟩ : ∃ n, fuel = n + 1 := ⟨fuel - 1, by simp only [Phrase.fuel] at enough; omega⟩
  obtain ⟨stop, others, rfl⟩ := ends
  exact ⟨[], rfl, by rw [List.nil_append, parseArgs]⟩

theorem not_closed (starts : ∃ token others, first = token :: others ∧ token ≠ .closeBracket)
    {ts : List Lexeme} (written : ts.map Lexeme.token = first) (after : List Lexeme) (offset : Nat)
    (later : List Lexeme) : ts ++ after ≠ ⟨.closeBracket, offset⟩ :: later := by
  intro eq
  obtain ⟨token, others, rfl, noClose⟩ := starts
  obtain ⟨_, ts, rfl, -⟩ := exists_lexeme written
  cases List.head_eq_of_cons_eq eq
  exact noClose rfl

theorem readFrom_lastArg
    (starts : ∃ token others, first = token :: others ∧ token ≠ .closeBracket)
    (arg : (Phrase.arg literals content).ReadFrom first) :
    (Phrase.args literals [content]).ReadFrom first := by
  intro finish fuel ts rest written enough ends
  rw [Phrase.fuel] at enough
  obtain ⟨fuel, rfl⟩ : ∃ n, fuel = n + 1 := ⟨fuel - 1, by omega⟩
  obtain ⟨stop, others, rfl⟩ := ends
  have ends : (Phrase.arg literals content).Ends (⟨.closeBracket, stop⟩ :: others) := by
    rintro _ ⟨⟩
    exact ⟨nofun, nofun⟩
  obtain ⟨found, isContent, read⟩ :=
    arg finish fuel written (by simp only [Phrase.fuel]; omega) ends
  refine ⟨[found], by rw [List.map_singleton, isContent], ?_⟩
  rw [parseArgs]
  · simp only [read, bind, Except.bind]
  · exact not_closed starts written _

theorem readFrom_comma (starts : ∃ token others, first = token :: others ∧ token ≠ .closeBracket)
    (arg : (Phrase.arg literals content).ReadFrom first)
    (args : (Phrase.args literals contents).ReadFrom more) :
    (Phrase.args literals (content :: contents)).ReadFrom (first ++ .comma :: more) := by
  intro finish fuel ts rest written enough ends
  simp only [Phrase.fuel, List.length_append, List.length_cons] at enough
  obtain ⟨fuel, rfl⟩ : ∃ n, fuel = n + 1 := ⟨fuel - 1, by omega⟩
  obtain ⟨before, after, rfl, writtenFirst, writtenAfter⟩ := List.map_eq_append_iff.1 written
  obtain ⟨offset, after, rfl, writtenMore⟩ := exists_lexeme writtenAfter
  have commaEnds : (Phrase.arg literals content).Ends (⟨.comma, offset⟩ :: (after ++ rest)) := by
    rintro _ ⟨⟩
    exact ⟨nofun, nofun⟩
  obtain ⟨found, isContent, read⟩ :=
    arg finish fuel writtenFirst (by simp only [Phrase.fuel]; omega) commaEnds
  obtain ⟨others, areContents, readMore⟩ :=
    args finish fuel writtenMore (by simp only [Phrase.fuel]; omega) ends
  refine ⟨found :: others, by rw [List.map_cons, isContent, areContents], ?_⟩
  rw [List.append_assoc, List.cons_append, parseArgs]
  · simp only [read, bind, Except.bind, readMore]
  · exact not_closed starts writtenFirst _

theorem readFrom_typeArg (starts : ∃ name others, part = .ident name :: others)
    (type : (Phrase.type ty).ReadFrom part)
    (noValue : literals = true → ∀ token ∈ part.head?, ∀ text, token = .ident text →
      literalName? text = none) : (Phrase.arg literals (.type ty)).ReadFrom part := by
  intro finish fuel ts rest written enough ends
  rw [Phrase.fuel] at enough
  obtain ⟨fuel, rfl⟩ : ∃ n, fuel = n + 1 := ⟨fuel - 1, by omega⟩
  have read : parseUnion finish fuel (ts ++ rest) = .ok (ty, rest) :=
    type finish fuel written (by simp only [Phrase.fuel]; omega) ends
  obtain ⟨name, others, rfl⟩ := starts
  obtain ⟨offset, ts, rfl, -⟩ := exists_lexeme written
  refine ⟨.type ty offset, rfl, ?_⟩
  rw [List.cons_append] at read ⊢
  cases literals with
  | false => simp only [parseArg, read, Except.map]
  | true => simp only [parseArg, noValue rfl _ rfl name rfl, read, Except.map]

theorem readFrom_token {token : Token} (arg : Nat → Argument)
    (isContent : ∀ offset, (arg offset).content = content)
    (reads : ∀ finish fuel offset rest,
      parseArg finish literals (fuel + 1) (⟨token, offset⟩ :: rest) = .ok (arg offset, rest)) :
    (Phrase.arg literals content).ReadFrom [token] := by
  intro finish fuel ts rest written enough ends
  obtain ⟨fuel, rfl⟩ : ∃ n, fuel = n + 1 := ⟨fuel - 1, by simp only [Phrase.fuel] at enough; omega⟩
  obtain ⟨offset, rfl⟩ := exists_only_lexeme written
  exact ⟨arg offset, isContent offset, reads finish fuel offset rest⟩

theorem readFrom_emptyTuple :
    (Phrase.arg literals .emptyTuple).ReadFrom [.openParen, .closeParen] := by
  intro finish fuel ts rest written enough ends
  obtain ⟨fuel, rfl⟩ : ∃ n, fuel = n + 1 := ⟨fuel - 1, by simp only [Phrase.fuel] at enough; omega⟩
  obtain ⟨offset, others, rfl, writtenClose⟩ := exists_lexeme written
  obtain ⟨stop, rfl⟩ := exists_only_lexeme writtenClose
  exact ⟨.emptyTuple offset, rfl, by rw [List.cons_append, List.singleton_append, parseArg]⟩

/-- What the grammar derives the parser reads, by induction on the derivation. -/
theorem Derives.readFrom {phrase : Phrase} (h : Derives part phrase) : phrase.ReadFrom part := by
  induction h with
  | type term bars readTerm readBars =>
    exact readFrom_type term.ne_nil_of_term bars.starts_of_bars readTerm readBars
  | noBars => exact readFrom_noBars
  | bar term bars readTerm readBars =>
    exact readFrom_bar term.ne_nil_of_term bars.starts_of_bars readTerm readBars
  | name denotes => exact readFrom_name denotes
  | applied _ denotes readArgs => exact readFrom_applied readArgs denotes
  | noArgs => exact readFrom_noArgs
  | lastArg arg readArg => exact readFrom_lastArg arg.starts_of_arg readArg
  | comma arg _ readArg readArgs => exact readFrom_comma arg.starts_of_arg readArg readArgs
  | ellipsis => exact readFrom_token .ellipsis (fun _ => rfl) fun _ _ _ _ => by rw [parseArg]
  | string s =>
    exact readFrom_token (.literal (.string s)) (fun _ => rfl) fun _ _ _ _ => by rw [parseArg]
  | number n =>
    exact readFrom_token (.literal (.number n)) (fun _ => rfl) fun _ _ _ _ => by rw [parseArg]
  | emptyTuple => exact readFrom_emptyTuple
  | @value name v isValue =>
    exact readFrom_token (.literal v) (fun _ => rfl) fun _ _ _ _ => by
      simp only [parseArg, isValue]
  | typeArg type noValue readType =>
    exact readFrom_typeArg type.starts_of_type readType noValue

end Completeness

/-- The parser accepts just what the grammar derives. -/
theorem parseAll_eq_ok_iff {finish : Nat} {ts : List Lexeme} {ty : TypeExpr} :
    parseAll finish ts = .ok ty ↔ Derives (ts.map Lexeme.token) (.type ty) := by
  constructor
  · intro h
    obtain ⟨⟨ty', rest⟩, read, ended⟩ := bind_eq_ok_iff.1 h
    obtain ⟨part, rfl, derived⟩ := Phrase.derivedFrom (.type ty') read
    cases rest with
    | nil =>
      cases ended
      rw [List.append_nil]
      exact derived
    | cons => cases ended
  · intro h
    have read : parseUnion finish (4 * ts.length + 4) (ts ++ []) = .ok (ty, []) :=
      h.readFrom finish _ rfl (by simp only [Phrase.fuel, List.length_map]; omega)
        (by rintro _ ⟨⟩)
    rw [List.append_nil] at read
    simp only [parseAll, read, bind, Except.bind]

end RecordCodec.TypeExpr
