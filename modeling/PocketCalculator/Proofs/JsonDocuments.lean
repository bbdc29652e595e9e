import PocketCalculator.Proofs.Characters
import PocketCalculator.Proofs.PlainDocuments
import PocketCalculator.Proofs.WrittenNumbers

namespace PocketCalculator.Proofs.JsonDocuments

open PocketCalculator.Settings
open PocketCalculator.Settings.Json
open PocketCalculator.Proofs.Characters
open PocketCalculator.Proofs.PlainDocuments
open PocketCalculator.Proofs.WrittenNumbers

theorem hexValue?_control {n : Nat} (h : n < 0x20) :
    hexValue? '0' '0' (Nat.digitChar (n / 16)) (Nat.digitChar (n % 16)) = some n := by
  revert h
  decide +revert

theorem stringTail_plain {c : Char} (tail : List Char) (hquote : c ≠ '"') (hslash : c ≠ '\\')
    (hplain : ¬c.toNat < 0x20) :
    stringTail (c :: tail) = (stringTail tail).map fun (s, rest) => (c :: s, rest) := by
  simp [stringTail, hslash, hplain]

theorem stringTail_encodeChar (c : Char) (tail : List Char) :
    stringTail (encodeChar c ++ tail) =
      (stringTail tail).map fun (s, rest) => (c :: s, rest) := by
  unfold encodeChar
  split
  case h_8 hquote hslash _ _ _ _ _ =>
    split
    case isTrue hcontrol =>
      have hhigh : ¬(0xD800 ≤ c.toNat ∧ c.toNat < 0xDC00) := by omega
      have hlow : ¬(0xDC00 ≤ c.toNat ∧ c.toNat < 0xE000) := by omega
      simp only [List.cons_append, List.nil_append, stringTail, hexValue?_control hcontrol,
        if_neg hhigh, if_neg hlow, Char.ofNat_toNat]
    case isFalse hplain => exact stringTail_plain tail hquote hslash hplain
  all_goals simp [stringTail, escape?]

theorem stringTail_flatMap (s rest : List Char) :
    stringTail (s.flatMap encodeChar ++ '"' :: rest) = some (s, rest) := by
  induction s with
  | nil => simp [stringTail]
  | cons c s ih => simp [stringTail_encodeChar, ih]

/-- Whether no number goes on in a text. -/
def EndsNumber (rest : List Char) : Prop := ∀ c ∈ rest.head?, isNumeric c = false

/-- A text that reads as a value, whatever comes after it. -/
structure ReadsAs (fuel depth : Nat) (text : List Char) (v : Value) : Prop where
  starts : ∃ c rest, text = c :: rest ∧ isSpace c = false
  reads : ∀ more rest, EndsNumber rest →
    value (fuel + more) depth (text ++ rest) = some (v, rest)

theorem ReadsAs.mono {fuel fuel' depth : Nat} {text : List Char} {v : Value}
    (h : ReadsAs fuel depth text v) (hfuel : fuel ≤ fuel') : ReadsAs fuel' depth text v where
  starts := h.starts
  reads := by
    intro more rest hrest
    obtain ⟨extra, rfl⟩ := Nat.exists_eq_add_of_le hfuel
    rw [Nat.add_assoc]
    exact h.reads (extra + more) rest hrest

theorem number?_toDigits {n : Nat} (h : n < Nat.pow 2 64) :
    number? (Nat.toDigits 10 n) = some (.scalar (.integer n)) := by
  have hfinite := isFinite_toDigits (Nat.lt_trans h (by decide))
  have hsign : (Nat.toDigits 10 n).head? ≠ some '+' := by
    intro hhead
    have hdigit := isDigit_toDigits n '+' (List.mem_of_head? hhead)
    exact absurd hdigit (by decide)
  have hlarge : decide (Nat.pow 2 64 ≤ n) = false := decide_eq_false (Nat.not_le.mpr h)
  have hempty : (Nat.toDigits 10 n).isEmpty = false := by simp [Nat.toDigits_ne_nil]
  simp only [number?, ofText?_toDigits, hsign, hempty, leadingZero_toDigits, hfinite,
    Nat.ofDigitChars_ten_toDigits, hlarge]
  rfl

theorem value_digits (fuel depth : Nat) {c : Char} (rest : List Char) (h : c.isDigit) :
    value (fuel + 1) depth (c :: rest) =
      (number? ((c :: rest).takeWhile isNumeric)).map fun v =>
        (v, (c :: rest).dropWhile isNumeric) := by
  have hne (d : Char) (hd : d.isDigit = false) : c ≠ d := ne_of_class h hd
  simp [value, hne 'n', hne 't', hne 'f', hne '"', hne '[', hne '{']

theorem readsAs_integer (depth : Nat) {n : Nat} (h : n < Nat.pow 2 63) :
    ReadsAs 1 depth (n : Int).repr.toList (.scalar (.integer n)) := by
  rw [toList_repr]
  obtain ⟨c, digits, hdigits, hdigit⟩ := exists_toDigits n
  constructor
  case starts =>
    have hne (d : Char) (hd : d.isDigit = false) : c ≠ d := ne_of_class hdigit hd
    exact ⟨c, digits, hdigits, by simp [isSpace, hne ' ' rfl, hne '\t' rfl, hne '\n' rfl,
      hne '\r' rfl]⟩
  case reads =>
    intro more rest hrest
    have hnumeric : ∀ c ∈ Nat.toDigits 10 n, isNumeric c := fun c hc => by
      simp [isNumeric, isDigit_toDigits n c hc]
    have hrun := takeWhile_append_of_ends hnumeric hrest
    have hvalue := value_digits more depth (digits ++ rest) hdigit
    rw [← List.cons_append, ← hdigits, hrun.1, hrun.2,
      number?_toDigits (Nat.lt_trans h (by decide))] at hvalue
    rw [Nat.add_comm, hvalue, Option.map_some]

theorem readsAs_scalar (depth : Nat) {s : Scalar} (h : IsPlainScalar s) :
    ReadsAs 1 depth (scalarText s) (.scalar s) := by
  cases s with
  | text s =>
    refine ⟨⟨'"', s.toList.flatMap encodeChar ++ ['"'], rfl, rfl⟩, fun more rest _ => ?_⟩
    rw [Nat.add_comm]
    simp [scalarText, quoted, value, stringTail_flatMap]
  | truth b =>
    refine ⟨by cases b <;> exact ⟨_, _, rfl, rfl⟩, fun more rest _ => ?_⟩
    rw [Nat.add_comm]
    cases b <;> simp [scalarText, value]
  | integer n =>
    obtain ⟨n, rfl, hn⟩ := h n rfl
    exact readsAs_integer depth hn
  | empty =>
    refine ⟨⟨'n', ['u', 'l', 'l'], rfl, rfl⟩, fun more rest _ => ?_⟩
    rw [Nat.add_comm]
    simp [scalarText, value]

def fieldLine (field : Field) : List Char := quoted field.key ++ ':' :: ' ' :: field.text

theorem skipSpace_append {blanks : List Char} (h : ∀ c ∈ blanks, isSpace c) (rest : List Char) :
    skipSpace (blanks ++ rest) = skipSpace rest :=
  List.dropWhile_append_of_pos h

theorem skipSpace_cons {c : Char} (rest : List Char) (h : isSpace c = false) :
    skipSpace (c :: rest) = c :: rest := by
  simp [skipSpace, h]

theorem skipSpace_break (rest : List Char) : skipSpace ('\n' :: rest) = skipSpace rest :=
  skipSpace_append (List.forall_mem_singleton.mpr rfl) rest

theorem members_line {fuel depth : Nat} {indent : List Char} {field : Field} {rest : List Char}
    (entries : Table) (more : Nat) (hindent : ∀ c ∈ indent, isSpace c)
    (hfield : ReadsAs fuel depth field.text field.value) (hrest : EndsNumber rest) :
    (∀ next, skipSpace rest = ',' :: next →
        members (fuel + more + 1) depth entries (skipSpace (indent ++ fieldLine field ++ rest)) =
          members (fuel + more) depth (Table.put field.key field.value entries)
            (skipSpace next)) ∧
      ∀ next, skipSpace rest = '}' :: next →
        members (fuel + more + 1) depth entries (skipSpace (indent ++ fieldLine field ++ rest)) =
          some (Table.put field.key field.value entries, next) := by
  obtain ⟨c, text, htext, hc⟩ := hfield.starts
  have hvalue : skipSpace (' ' :: (field.text ++ rest)) = field.text ++ rest := by
    rw [htext, List.cons_append, ← List.singleton_append,
      skipSpace_append (by simp [isSpace]), skipSpace_cons _ hc]
  rw [List.append_assoc, skipSpace_append hindent]
  simp only [fieldLine, quoted, List.cons_append, List.append_assoc, List.nil_append]
  rw [skipSpace_cons _ rfl, members, stringTail_flatMap]
  refine ⟨fun next hnext => ?_, fun next hnext => ?_⟩ <;>
    simp only [skipSpace_cons (c := ':') _ rfl, hvalue, hfield.reads more rest hrest, hnext,
      String.ofList_toList]

theorem members_lines {fuel depth : Nat} {indent blanks : List Char} {fields : List Field}
    (entries : Table) (more : Nat) (rest : List Char) (hne : fields ≠ [])
    (hindent : ∀ c ∈ indent, isSpace c) (hblanks : ∀ c ∈ blanks, isSpace c)
    (hfields : ∀ field ∈ fields, ReadsAs fuel depth field.text field.value)
    (hnodup : (entries.map (·.1) ++ fields.map (·.key)).Nodup) :
    members (fuel + fields.length + more) depth entries
        (skipSpace (lines indent (fields.map fieldLine) ++ (blanks ++ '}' :: rest))) =
      some (entries ++ fields.map Field.entry, rest) := by
  induction fields generalizing entries with
  | nil => exact absurd rfl hne
  | cons field fields ih =>
    have hfield := hfields field (by simp)
    have hput := put_field hnodup
    have hfuel : fuel + (field :: fields).length + more = fuel + (fields.length + more) + 1 := by
      simp only [List.length_cons]
      omega
    rw [hfuel]
    cases fields with
    | nil =>
      have hends : EndsNumber ('\n' :: (blanks ++ '}' :: rest)) := by simp [EndsNumber, isNumeric]
      have hclose : skipSpace ('\n' :: (blanks ++ '}' :: rest)) = '}' :: rest := by
        rw [skipSpace_break, skipSpace_append hblanks, skipSpace_cons _ rfl]
      have htext : lines indent (List.map fieldLine [field]) ++ (blanks ++ '}' :: rest) =
          indent ++ fieldLine field ++ '\n' :: (blanks ++ '}' :: rest) := by
        simp [lines]
      rw [htext, (members_line entries _ hindent hfield hends).2 rest hclose, hput]
      rfl
    | cons next fields =>
      have hends (tail : List Char) : EndsNumber (',' :: '\n' :: tail) := by
        simp [EndsNumber, isNumeric]
      have htext : lines indent (List.map fieldLine (field :: next :: fields)) ++
            (blanks ++ '}' :: rest) =
          indent ++ fieldLine field ++ ',' :: '\n' ::
            (lines indent (List.map fieldLine (next :: fields)) ++ (blanks ++ '}' :: rest)) := by
        simp [lines]
      rw [htext, (members_line entries _ hindent hfield (hends _)).1 _ (skipSpace_cons _ rfl),
        skipSpace_break, hput, ← Nat.add_assoc,
        ih _ (by simp) (fun f hf => hfields f (by simp [hf]))
          (by simpa [Field.entry] using hnodup)]
      simp

theorem readsAs_table {fuel depth : Nat} {indent blanks : List Char} {fields : List Field}
    (hne : fields ≠ []) (hindent : ∀ c ∈ indent, isSpace c) (hblanks : ∀ c ∈ blanks, isSpace c)
    (hfields : ∀ field ∈ fields, ReadsAs fuel depth field.text field.value)
    (hnodup : (fields.map (·.key)).Nodup) :
    ReadsAs (fuel + fields.length + 1) (depth + 1)
      ('{' :: '\n' :: (lines indent (fields.map fieldLine) ++ (blanks ++ ['}'])))
      (.table (fields.map Field.entry)) := by
  refine ⟨⟨_, _, rfl, rfl⟩, fun more rest _ => ?_⟩
  have hmembers := members_lines [] more rest hne hindent hblanks hfields
    (by simpa using hnodup)
  have hstart : ∃ tail, skipSpace (lines indent (fields.map fieldLine) ++
      (blanks ++ '}' :: rest)) = '"' :: tail := by
    obtain ⟨field, others, rfl⟩ := List.exists_cons_of_ne_nil hne
    cases others <;>
      simp [lines, skipSpace_append hindent, fieldLine, quoted,
        skipSpace_cons (c := '"') _ rfl]
  obtain ⟨tail, htail⟩ := hstart
  have hfuel : fuel + fields.length + 1 + more = fuel + fields.length + more + 1 := by omega
  rw [htail] at hmembers
  simp [hfuel, value, skipSpace_break, htail, hmembers]

def fieldOf (entry : String × Scalar) : Field := ⟨entry.1, scalarText entry.2, .scalar entry.2⟩

theorem length_le_lines (indent : List Char) (texts : List (List Char)) :
    texts.flatten.length + texts.length ≤ (lines indent texts).length := by
  fun_induction lines indent texts with
  | case1 => simp
  | case2 => simp
  | case3 line rest _ ih =>
    simp only [List.flatten_cons, List.length_append, List.length_cons] at ih ⊢
    omega

/-- The section of a document as an entry of the table around it. -/
def sectionOf (document : Document) : Field :=
  ⟨document.name,
    '{' :: '\n' :: (lines [' ', ' ', ' ', ' '] ((document.members.map fieldOf).map fieldLine) ++
      ([' ', ' '] ++ ['}'])),
    .table ((document.members.map fieldOf).map Field.entry)⟩

def fieldsOf (document : Document) : List Field :=
  document.entries.map fieldOf ++ [sectionOf document]

theorem toList_write (document : Document) :
    (write document).toList =
      '{' :: '\n' :: (lines [' ', ' '] ((fieldsOf document).map fieldLine) ++ ([] ++ ['}'])) := by
  have hlines (entries : List (String × Scalar)) :
      entries.map (fieldLine ∘ fieldOf) = entries.map entryLine := rfl
  simp [write, fieldsOf, sectionOf, fieldLine, hlines]

theorem toValue_eq (document : Document) :
    document.toValue = .table ((fieldsOf document).map Field.entry) := by
  simp [Document.toValue, fieldsOf, sectionOf, Field.entry, fieldOf]

theorem readsAs_fields {document : Document} (h : IsPlain document) (hne : document.members ≠ []) :
    ∀ field ∈ fieldsOf document,
      ReadsAs (document.members.length + 2) 126 field.text field.value := by
  have hscalar (depth : Nat) : ∀ entry ∈ document.entries ++ document.members,
      ReadsAs 1 depth (fieldOf entry).text (fieldOf entry).value := fun entry hentry =>
    readsAs_scalar depth (h.scalars entry hentry)
  intro field hfield
  rcases List.mem_append.mp hfield with hplain | hsection
  · obtain ⟨entry, hentry, rfl⟩ := List.mem_map.mp hplain
    exact (hscalar 126 entry (List.mem_append_left _ hentry)).mono (by omega)
  · obtain rfl := List.mem_singleton.mp hsection
    have hmembers : ∀ field ∈ document.members.map fieldOf,
        ReadsAs 1 125 field.text field.value := by
      intro field hfield
      obtain ⟨entry, hentry, rfl⟩ := List.mem_map.mp hfield
      exact hscalar 125 entry (List.mem_append_right _ hentry)
    have htable : ReadsAs (1 + (document.members.map fieldOf).length + 1) 126
        (sectionOf document).text (sectionOf document).value :=
      readsAs_table (by simpa using hne) (by simp [isSpace]) (by simp [isSpace]) hmembers
        (by simpa [fieldOf, Function.comp_def] using h.distinctMembers)
    exact htable.mono (by rw [List.length_map]; omega)

theorem read_write {document : Document} (h : IsPlain document) (hne : document.members ≠ []) :
    Json.read (write document) = some document.toValue := by
  have hdistinct : ((fieldsOf document).map (·.key)).Nodup := by
    simpa [fieldsOf, fieldOf, sectionOf, Function.comp_def] using h.distinct
  have htable : ReadsAs (document.members.length + 2 + (fieldsOf document).length + 1) maxDepth
      (write document).toList document.toValue := by
    rw [toList_write, toValue_eq]
    exact readsAs_table (by simp [fieldsOf]) (by simp [isSpace]) (by simp) (readsAs_fields h hne)
      hdistinct
  have hfuel : document.members.length + 2 + (fieldsOf document).length + 1 ≤
      (write document).toList.length + 1 := by
    have hlines := length_le_lines [' ', ' '] ((fieldsOf document).map fieldLine)
    have hmembers := length_le_lines [' ', ' ', ' ', ' ']
      ((document.members.map fieldOf).map fieldLine)
    rw [toList_write]
    simp only [fieldsOf, sectionOf, fieldLine, List.map_append, List.flatten_append,
      List.length_append, List.length_map, List.length_cons, List.map_cons, List.map_nil,
      List.flatten_cons] at hlines hmembers ⊢
    omega
  obtain ⟨more, hmore⟩ := Nat.exists_eq_add_of_le hfuel
  have hvalue : value ((write document).toList.length + 1) maxDepth
      ((write document).toList ++ []) = some (document.toValue, []) := by
    rw [hmore]
    exact htable.reads more [] (by simp [EndsNumber])
  have hstart : skipSpace (write document).toList = (write document).toList := by
    rw [toList_write]
    exact skipSpace_cons _ rfl
  rw [List.append_nil, toValue_eq] at hvalue
  simp only [Json.read, hstart, hvalue]
  rw [toValue_eq]
  rfl

end PocketCalculator.Proofs.JsonDocuments
