import RecordCodec.FlatText
import RecordCodec.Proofs.JoinedTexts

set_option autoImplicit false

/-!
# Lines of flat texts

An entry is written as an assignment of its value in quotes, which may be marked as exported. The
quotes keep blanks at the ends of the value, and only one pair of them is taken off again, so any
value on one line comes back. A key comes back if nothing else is read in its place.
-/
namespace RecordCodec

namespace Text

variable {p s blanks : List Char}

theorem stripPrefix?_append (p s : List Char) : stripPrefix? p (p ++ s) = some s := by
  induction p with
  | nil => rfl
  | cons c p ih => rw [List.cons_append, stripPrefix?, if_pos rfl, ih]

theorem stripPrefix?_eq_none (h : ¬p <+: s) : stripPrefix? p s = none := by
  induction p generalizing s with
  | nil => exact absurd List.nil_prefix h
  | cons c p ih =>
    cases s with
    | nil => rfl
    | cons d s =>
      rw [stripPrefix?]
      split
      case isTrue same => exact ih fun more => h (List.cons_prefix_cons.2 ⟨same, more⟩)
      case isFalse => rfl

theorem stripSuffix?_append (s suffix : List Char) :
    stripSuffix? suffix (s ++ suffix) = some s := by
  rw [stripSuffix?, List.reverse_append, stripPrefix?_append, Option.map_some, List.reverse_reverse]

theorem not_prefix_append_cons {sep : Char} (h : ¬p <+: s) (new : sep ∉ p) (after : List Char) :
    ¬p <+: s ++ sep :: after := by
  induction p generalizing s with
  | nil => exact absurd List.nil_prefix h
  | cons c p ih =>
    rw [List.mem_cons, not_or] at new
    intro starts
    cases s with
    | nil => exact new.1 (List.cons_prefix_cons.1 starts).1.symm
    | cons d s =>
      obtain ⟨rfl, more⟩ := List.cons_prefix_cons.1 starts
      exact ih (fun part => h (List.cons_prefix_cons.2 ⟨rfl, part⟩)) new.2 more

theorem trim_eq_nil (blank : ∀ c ∈ s, isBlank c = true) : trim s = [] := by
  rw [trim, trimStart, List.dropWhile_eq_nil_iff.2 blank]
  rfl

theorem trim_append_blanks (trimmed : trim s = s) (blank : ∀ c ∈ blanks, isBlank c = true) :
    trim (s ++ blanks) = s := by
  obtain ⟨start, ends⟩ := trim_eq_self_iff.1 trimmed
  cases s with
  | nil => exact trim_eq_nil blank
  | cons c rest =>
    have shown := List.dropWhile_eq_self_iff.1 start rest.length.zero_lt_succ
    have kept : trimStart (c :: rest ++ blanks) = c :: rest ++ blanks :=
      List.dropWhile_cons_of_neg shown
    have dropped : (blanks.reverse ++ (c :: rest).reverse).dropWhile isBlank =
        (c :: rest).reverse.dropWhile isBlank :=
      List.dropWhile_append_of_pos fun d mem => blank d (List.mem_reverse.1 mem)
    rw [trim, kept, trimEnd, List.reverse_append, dropped]
    exact ends

/-- A text that starts and ends with characters that show is trimmed. -/
theorem trim_concat {c : Char} (start : trimStart (s ++ [c]) = s ++ [c])
    (visible : isBlank c = false) : trim (s ++ [c]) = s ++ [c] :=
  trim_eq_self_iff.2 ⟨start, List.rdropWhile_concat_neg isBlank s c (by simp [visible])⟩

theorem exists_trim_append_cons {c : Char} (blank : ∀ d ∈ blanks, isBlank d = true)
    (visible : isBlank c = false) (rest : List Char) :
    ∃ rest', trim (blanks ++ c :: rest) = c :: rest' := by
  have start : trimStart (blanks ++ c :: rest) = c :: rest := by
    rw [trimStart, List.dropWhile_append_of_pos blank]
    exact List.dropWhile_cons_of_neg (by simp [visible])
  have kept : trimEnd (c :: rest) <+: c :: rest := List.rdropWhile_prefix isBlank _
  cases ends : trimEnd (c :: rest) with
  | nil =>
    have first := List.rdropWhile_eq_nil_iff.1 ends c List.mem_cons_self
    rw [visible] at first
    cases first
  | cons d rest' =>
    rw [ends] at kept
    obtain ⟨rfl, -⟩ := List.cons_prefix_cons.1 kept
    exact ⟨rest', by rw [trim, start, ends]⟩

end Text

namespace FlatText

open Text

inductive Line where
  /-- An assignment, with blanks after it. -/
  | entry (exported : Bool) (key value blanks : String)
  | blank (blanks : String)
  | comment (blanks words : String)

/-- A key that is not taken for anything else at the start of a line. -/
structure IsKey (key : String) : Prop where
  trimmed : trim key.toList = key.toList
  unsigned : '=' ∉ key.toList
  oneLine : '\n' ∉ key.toList
  noComment : ¬['#'] <+: key.toList
  noExport : ¬"export ".toList <+: key.toList

/-- Blanks that do not end the line. -/
def AreBlanks (s : String) : Prop := ∀ c ∈ s.toList, isBlank c = true ∧ c ≠ '\n'

instance (s : String) : Decidable (AreBlanks s) :=
  List.decidableBAll (fun c => isBlank c = true ∧ c ≠ '\n') s.toList

namespace Line

def text : Line → String
  | entry exported key value blanks =>
    (if exported then "export " else "") ++ key ++ "=\"" ++ value ++ "\"" ++ blanks
  | blank blanks => blanks
  | comment blanks words => blanks ++ "#" ++ words

def entry? : Line → Option (String × String)
  | entry _ key value _ => some (key, value)
  | blank _ | comment _ _ => none

inductive IsClean : Line → Prop
  | entry {exported : Bool} {key value blanks : String} : IsKey key → '\n' ∉ value.toList →
    AreBlanks blanks → IsClean (.entry exported key value blanks)
  | blank {blanks : String} : AreBlanks blanks → IsClean (.blank blanks)
  | comment {blanks words : String} : AreBlanks blanks → '\n' ∉ words.toList →
    IsClean (.comment blanks words)

end Line

def assignment (key value : String) : List Char :=
  key.toList ++ '=' :: '"' :: (value.toList ++ ['"'])

def exportMark (exported : Bool) : List Char := if exported then "export ".toList else []

variable {key value blanks : String} {exported : Bool}

theorem toList_text_entry (exported : Bool) (key value blanks : String) :
    (Line.entry exported key value blanks).text.toList =
      exportMark exported ++ assignment key value ++ blanks.toList := by
  cases exported <;> simp [Line.text, assignment, exportMark]

theorem unquoted_quotes (value : List Char) : unquoted ('"' :: (value ++ ['"'])) = value := by
  rw [unquoted, stripSuffix?_append]
  rfl

theorem isSkipped_eq_false {line : List Char} (some : line ≠ []) (noComment : ¬['#'] <+: line) :
    isSkipped line = false := by
  cases line with
  | nil => exact absurd rfl some
  | cons c rest =>
    have other : c ≠ '#' := by
      rintro rfl
      exact noComment (List.cons_prefix_cons.2 ⟨rfl, List.nil_prefix⟩)
    simp [isSkipped, other]

namespace IsKey

theorem trim_line (isKey : IsKey key) (value : String) :
    trim (exportMark exported ++ assignment key value) =
      exportMark exported ++ assignment key value := by
  have start : trimStart (exportMark exported ++ assignment key value) =
      exportMark exported ++ assignment key value := by
    cases exported with
    | true => exact List.dropWhile_cons_of_neg (by decide)
    | false => exact trimStart_append_cons rfl (trim_eq_self_iff.1 isKey.trimmed).1 _
  have split : exportMark exported ++ assignment key value =
      exportMark exported ++ key.toList ++ '=' :: '"' :: value.toList ++ ['"'] := by
    simp [assignment]
  rw [split] at start ⊢
  exact trim_concat start rfl

theorem isSkipped_line (isKey : IsKey key) (value : String) :
    isSkipped (exportMark exported ++ assignment key value) = false := by
  refine isSkipped_eq_false (by simp [assignment]) ?_
  cases exported with
  | true => exact fun starts => absurd (List.cons_prefix_cons.1 starts).1 (by decide)
  | false => exact not_prefix_append_cons isKey.noComment (by decide) _

theorem withoutExport_line (isKey : IsKey key) (value : String) :
    withoutExport (exportMark exported ++ assignment key value) = assignment key value := by
  rw [withoutExport]
  cases exported with
  | true =>
    rw [exportMark, if_pos rfl, stripPrefix?_append]
    rfl
  | false =>
    have unmarked : ¬"export ".toList <+: assignment key value :=
      not_prefix_append_cons isKey.noExport (by decide) _
    exact congrArg (Option.getD · _) (stripPrefix?_eq_none unmarked)

theorem entry?_line (isKey : IsKey key) (value : String) :
    FlatText.entry? (exportMark exported ++ assignment key value) = some (key, value) := by
  have trimmed : trim ('"' :: (value.toList ++ ['"'])) = '"' :: (value.toList ++ ['"']) :=
    trim_concat (s := '"' :: value.toList) (List.dropWhile_cons_of_neg (by decide)) rfl
  rw [FlatText.entry?, isKey.withoutExport_line, assignment, splitOnce_append isKey.unsigned]
  simp only [Option.map_some, isKey.trimmed, trimmed, unquoted_quotes, String.ofList_toList]

end IsKey

theorem AreBlanks.blank (areBlanks : AreBlanks blanks) : ∀ c ∈ blanks.toList, isBlank c = true :=
  fun c mem => (areBlanks c mem).1

namespace Line

variable {line : Line} {lines : List Line}

theorem IsClean.oneLine (clean : line.IsClean) : '\n' ∉ line.text.toList := by
  have noFeed {s : String} (areBlanks : AreBlanks s) : '\n' ∉ s.toList :=
    fun mem => (areBlanks _ mem).2 rfl
  cases clean with
  | @entry exported key value blanks isKey oneLine areBlanks =>
    rw [toList_text_entry]
    cases exported <;>
      simp [assignment, exportMark, isKey.oneLine, oneLine, noFeed areBlanks]
  | blank areBlanks => exact noFeed areBlanks
  | comment areBlanks oneLine => simp [text, noFeed areBlanks, oneLine]

theorem IsClean.isSkipped_trim (clean : line.IsClean) :
    isSkipped (trim line.text.toList) = line.entry?.isNone := by
  cases clean with
  | entry isKey _ areBlanks =>
    rw [toList_text_entry, trim_append_blanks (isKey.trim_line _) areBlanks.blank]
    exact isKey.isSkipped_line _
  | @blank blanks areBlanks =>
    have trimmed : trim (Line.blank blanks).text.toList = [] := trim_eq_nil areBlanks.blank
    rw [trimmed]
    rfl
  | @comment blanks words areBlanks _ =>
    have chars : (Line.comment blanks words).text.toList =
        blanks.toList ++ '#' :: words.toList := by
      simp [text]
    obtain ⟨rest, trimmed⟩ := exists_trim_append_cons areBlanks.blank (c := '#') rfl words.toList
    rw [chars, trimmed]
    rfl

theorem IsClean.entry?_trim (clean : line.IsClean) {e : String × String}
    (holds : line.entry? = some e) : FlatText.entry? (trim line.text.toList) = some e := by
  cases clean with
  | entry isKey _ areBlanks =>
    cases holds
    rw [toList_text_entry, trim_append_blanks (isKey.trim_line _) areBlanks.blank]
    exact isKey.entry?_line _
  | blank | comment => cases holds

theorem IsClean.readLines_cons (clean : line.IsClean) (n : Nat) (rest : List (List Char)) :
    readLines n (line.text.toList :: rest) =
      (readLines (n + 1) rest).map (line.entry?.toList ++ ·) := by
  have skipped := clean.isSkipped_trim
  rw [readLines]
  cases holds : line.entry? with
  | none =>
    rw [if_pos (skipped.trans (by rw [holds]; rfl))]
    cases readLines (n + 1) rest <;> rfl
  | some e =>
    rw [if_neg (by simp [skipped, holds]), clean.entry?_trim holds]
    rfl

theorem readLines_text (clean : ∀ line ∈ lines, line.IsClean) (n : Nat) :
    readLines n (lines.map fun line => line.text.toList) = .ok (lines.filterMap entry?) := by
  induction lines generalizing n with
  | nil => rfl
  | cons line rest ih =>
    obtain ⟨first, others⟩ := List.forall_mem_cons.1 clean
    rw [List.map_cons, first.readLines_cons, ih others, List.filterMap_cons]
    cases line.entry? <;> rfl

end Line

theorem read_intercalate {texts : List String} (some : texts ≠ [])
    (oneLine : ∀ s ∈ texts, '\n' ∉ s.toList) :
    read (String.intercalate "\n" texts) = readLines 1 (texts.map String.toList) := by
  have split : splitOn '\n' (String.intercalate "\n" texts).toList = texts.map String.toList := by
    rw [splitOn_eq, String.toList_intercalate]
    refine List.splitOn_intercalate '\n' (fun s mem => ?_) (by simpa using some)
    obtain ⟨s, isText, rfl⟩ := List.mem_map.1 mem
    exact oneLine s isText
  rw [read, split]

/-- The entries of a written text are read back in order, whatever values they have, and whatever
blank lines and comments there are among them. -/
theorem read_lines (lines : List Line) (clean : ∀ line ∈ lines, line.IsClean) :
    read (String.intercalate "\n" (lines.map Line.text)) = .ok (lines.filterMap Line.entry?) := by
  by_cases none : lines = []
  · rw [none]
    rfl
  · have oneLine : ∀ s ∈ lines.map Line.text, '\n' ∉ s.toList := by
      intro s mem
      obtain ⟨line, isLine, rfl⟩ := List.mem_map.1 mem
      exact (clean line isLine).oneLine
    rw [read_intercalate (by simpa using none) oneLine, List.map_map]
    exact Line.readLines_text clean 1

theorem read_lines_environment :
    read "# app\nexport PORT=\" 8=\"0# \"\n\t\n=\"\"\r\nA b=\"\"\"\n" =
      .ok [("PORT", " 8=\"0# "), ("", ""), ("A b", "\"")] := by
  let lines : List Line := [.comment "" " app", .entry true "PORT" " 8=\"0# " "", .blank "\t",
    .entry false "" "" "\r", .entry false "A b" "\"" "", .blank ""]
  have isKey : ∀ key ∈ ["PORT", "", "A b"], IsKey key := by
    intro key mem
    constructor <;>
      · revert key
        decide
  have clean : ∀ line ∈ lines, line.IsClean := by
    simp only [lines, List.forall_mem_cons]
    exact ⟨.comment (by decide) (by decide), .entry (isKey _ (by decide)) (by decide) (by decide),
      .blank (by decide), .entry (isKey _ (by decide)) (by decide) (by decide),
      .entry (isKey _ (by decide)) (by decide) (by decide), .blank (by decide),
      List.forall_mem_nil _⟩
  exact read_lines lines clean

end FlatText
end RecordCodec
