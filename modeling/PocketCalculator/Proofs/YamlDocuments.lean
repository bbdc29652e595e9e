import PocketCalculator.Proofs.YamlCharacters
import PocketCalculator.Proofs.YamlPlain

namespace PocketCalculator.Proofs.YamlDocuments

open PocketCalculator.Settings
open PocketCalculator.Settings.Yaml
open PocketCalculator.Proofs.Characters
open PocketCalculator.Proofs.PlainDocuments
open PocketCalculator.Proofs.WrittenNumbers
open PocketCalculator.Proofs.YamlBlocks
open PocketCalculator.Proofs.YamlCharacters
open PocketCalculator.Proofs.YamlCursors
open PocketCalculator.Proofs.YamlPlain
open PocketCalculator.Proofs.YamlQuotes

theorem node?_scalar {fuel indent : Nat} {cursor next : Cursor} {c : Char} {text tail : List Char}
    {v : Value} (hcursor : cursor.rest = c :: tail)
    (hc : c ≠ '|' ∧ c ≠ '>' ∧ c ≠ '[' ∧ c ≠ '{')
    (h : scalar? false indent cursor = some (text, v, next)) :
    node? (fuel + 1) false indent cursor = some (v, next.toContent false (!next.fresh)) := by
  obtain ⟨hblock, hfold, hlist, htable⟩ := hc
  simp [node?, hcursor, hblock, hfold, hlist, htable, h]

theorem node?_plain {fuel column : Nat} {cursor : Cursor} {text rest : List Char}
    (h : IsPlainText text) (hrest : Follows column rest)
    (hcursor : cursor.rest = text ++ '\n' :: rest) (hfresh : cursor.fresh = false) :
    node? (fuel + 1) false (column + 1) cursor = some (resolve text, lineStart rest) := by
  have hscalar := scalar?_plain h hrest hcursor hfresh
  obtain ⟨c, tail, rfl, -, hindicator⟩ := h.exists_cons
  have hc (d : Char) (hd : isIndicator d) : c ≠ d := (ne_of_class hd hindicator).symm
  rw [node?_scalar hcursor ⟨hc '|' rfl, hc '>' rfl, hc '[' rfl, hc '{' rfl⟩ hscalar,
    toContent_lineStart hrest]

theorem node?_quoted {fuel indent : Nat} {cursor : Cursor} {quote : Char}
    {text tail rest : List Char} (hcursor : cursor.rest = quote :: tail)
    (hquote : quote = '"' ∨ quote = '\'')
    (h : quoted? cursor = some (text, cursor.moveTo ('\n' :: rest))) :
    node? (fuel + 1) false indent cursor =
      some (.scalar (.text (String.ofList text)), lineStart rest) := by
  have hscalar : scalar? false indent cursor =
      some (text, .scalar (.text (String.ofList text)), cursor.moveTo ('\n' :: rest)) := by
    rw [scalar?, h]
  rw [node?_scalar hcursor (by rcases hquote with rfl | rfl <;> decide) hscalar,
    toContent_break _ _ rest rfl]

theorem node?_block {fuel column : Nat} {cursor : Cursor} {text rest : List Char}
    (h : IsBlockText text) (hrest : Follows column rest)
    (hcursor : cursor.rest = '|' :: (blockSigns text ++ '\n' :: (indented (column + 2) true text ++
      (if (Layout.ofText text).trailingBreak then [] else ['\n']) ++ rest))) :
    node? (fuel + 1) false (column + 1) cursor =
      some (.scalar (.text (String.ofList text)), lineStart rest) := by
  simp only [node?, hcursor, block?_blockSigns h hrest]
  rfl

theorem node?_written {fuel column : Nat} {cursor : Cursor} {rest : List Char} (text : String)
    (hrest : Follows column rest) (hcursor : cursor.rest = written (column + 2) text ++ rest)
    (hfresh : cursor.fresh = false) :
    node? (fuel + 1) false (column + 1) cursor = some (.scalar (.text text), lineStart rest) := by
  cases hstyle : styleOf text.toList with
  | plain =>
    obtain ⟨hplain, hresolve⟩ := of_styleOf_plain hstyle
    simp only [written, hstyle, List.append_assoc, List.singleton_append] at hcursor
    rw [node?_plain hplain hrest hcursor hfresh, hresolve, String.ofList_toList]
  | single =>
    obtain ⟨hchars, hbreakSpace, hspaceBreak⟩ := of_styleOf_single hstyle
    have hclose : ('\n' :: rest).head? ≠ some '\'' := by simp
    have hread : singleTail [] _ = some (text.toList, '\n' :: rest) :=
      singleTail_indented (show 0 < column + 2 by omega) isPending_nil hchars hbreakSpace
        hspaceBreak hclose
    simp only [written, hstyle, List.append_assoc, List.cons_append] at hcursor
    have hquoted : quoted? cursor = some (text.toList, cursor.moveTo ('\n' :: rest)) := by
      simp only [quoted?, hcursor]
      exact Option.map_eq_some_iff.mpr ⟨_, hread, rfl⟩
    rw [node?_quoted hcursor (.inr rfl) hquoted, String.ofList_toList]
  | double =>
    have hread := doubleTail_flatMap [] text.toList ('\n' :: rest) (by simp)
    simp only [written, hstyle, List.append_assoc, List.cons_append, List.nil_append] at hcursor
    have hquoted : quoted? cursor = some (text.toList, cursor.moveTo ('\n' :: rest)) := by
      simp [quoted?, hcursor, hread]
    rw [node?_quoted hcursor (.inl rfl) hquoted, String.ofList_toList]
  | block =>
    simp only [written, hstyle, List.append_assoc, List.cons_append] at hcursor
    rw [node?_block (of_styleOf_block hstyle) hrest (by simpa using hcursor), String.ofList_toList]

theorem exists_word {s : Scalar} (indent : Nat) (hs : IsPlainScalar s) (htext : ∀ t, s ≠ .text t) :
    ∃ word, IsPlainText word ∧ resolve word = .scalar s ∧ scalarLine indent s = word ++ ['\n'] := by
  have hsafe (word : List Char) (hne : word ≠ []) (h : word.all isSafe) : IsPlainText word :=
    isPlainText_word hne (List.all_eq_true.mp h)
  cases s with
  | text t => exact absurd rfl (htext t)
  | truth b =>
    cases b
    · exact ⟨"false".toList, hsafe _ (by decide) rfl, rfl, rfl⟩
    · exact ⟨"true".toList, hsafe _ (by decide) rfl, rfl, rfl⟩
  | integer n =>
    obtain ⟨n, rfl, -⟩ := hs n rfl
    refine ⟨Nat.toDigits 10 n, isPlainText_toDigits n, resolve_toDigits n, ?_⟩
    rw [scalarLine, toList_repr]
  | empty =>
    exact ⟨"null".toList, hsafe _ (by decide) rfl, rfl, rfl⟩

theorem node?_scalarLine {fuel column : Nat} {cursor : Cursor} {rest : List Char} {s : Scalar}
    (hs : IsPlainScalar s) (hrest : Follows column rest)
    (hcursor : cursor.rest = scalarLine (column + 2) s ++ rest) (hfresh : cursor.fresh = false) :
    node? (fuel + 1) false (column + 1) cursor = some (.scalar s, lineStart rest) := by
  by_cases htext : ∃ t, s = .text t
  · obtain ⟨t, rfl⟩ := htext
    exact node?_written t hrest hcursor hfresh
  · obtain ⟨word, hword, hresolve, hline⟩ := exists_word (column + 2) hs (not_exists.mp htext)
    rw [hline, List.append_assoc] at hcursor
    rw [node?_plain hword hrest hcursor hfresh, hresolve]

theorem exists_written (indent : Nat) (text : String) :
    ∃ c tail, written indent text = c :: tail ∧ isGap c = false ∧ c ≠ '#' := by
  cases hstyle : styleOf text.toList with
  | plain =>
    obtain ⟨c, tail, hcons, hgap, hindicator⟩ := (of_styleOf_plain hstyle).1.exists_cons
    have hcomment : '#' ≠ c := ne_of_class rfl hindicator
    exact ⟨c, tail ++ ['\n'], by simp only [written, hstyle]; rw [hcons]; rfl, hgap,
      hcomment.symm⟩
  | single => exact ⟨'\'', _, by simp only [written, hstyle]; rfl, rfl, by decide⟩
  | double => exact ⟨'"', _, by simp only [written, hstyle]; rfl, rfl, by decide⟩
  | block => exact ⟨'|', _, by simp only [written, hstyle]; rfl, rfl, by decide⟩

theorem exists_scalarLine (indent : Nat) {s : Scalar} (hs : IsPlainScalar s) :
    ∃ c tail, scalarLine indent s = c :: tail ∧ isGap c = false ∧ c ≠ '#' := by
  by_cases htext : ∃ t, s = .text t
  · obtain ⟨t, rfl⟩ := htext
    exact exists_written indent t
  · obtain ⟨word, hword, -, hline⟩ := exists_word indent hs (not_exists.mp htext)
    obtain ⟨c, tail, rfl, hgap, hindicator⟩ := hword.exists_cons
    have hcomment : '#' ≠ c := ne_of_class rfl hindicator
    exact ⟨c, tail ++ ['\n'], hline, hgap, hcomment.symm⟩

theorem scalar?_key {cursor : Cursor} {key : String} {rest : List Char} (hkey : IsKey key)
    (hcursor : cursor.rest = key.toList ++ ':' :: rest) (hrest : startsGap rest) :
    scalar? false 0 cursor =
      some (key.toList, resolve key.toList, cursor.moveTo (':' :: rest)) := by
  have hsafe := isSafe_of_mem_key hkey
  have hplain := isPlainText_word hkey.nonempty hsafe
  have hword : word false cursor.rest = key.toList := by
    rw [hcursor]
    exact word_append (isWord_of_safe hkey.nonempty hsafe) (by simp [word, hrest])
  have hstop : cursor.rest.drop key.toList.length = ':' :: rest := by
    rw [hcursor, List.drop_left]
  have hstopRest : (cursor.moveTo (':' :: rest)).rest = ':' :: rest := rfl
  have hgap : (':' :: rest).takeWhile isGap = [] := rfl
  have hsame := moveTo_rest (cursor.moveTo (':' :: rest))
  rw [hstopRest] at hsame
  have hread : plainText false 0 (cursor.rest.length + 1) cursor =
      (key.toList, cursor.moveTo (':' :: rest)) := by
    simp only [plainText, hword, hstop, hstopRest, hgap, List.length_nil, List.drop_zero, hsame]
    rfl
  rw [scalar?, quoted?_eq_none hplain hcursor]
  simp only [hread, Bool.false_and]
  rw [hcursor, if_pos (startsPlain_append _ hplain)]
  rfl

theorem key?_key {cursor : Cursor} {key : String} {rest : List Char} (hkey : IsKey key)
    (hcursor : cursor.rest = key.toList ++ ':' :: rest) (hrest : startsGap rest) :
    key? cursor = some (key, ⟨cursor.column + key.toList.length + 1, false, rest⟩) := by
  have hcolumn : (cursor.moveTo (':' :: rest)).column = cursor.column + key.toList.length := by
    rw [moveTo_append key.toList hcursor]
    exact (pass_run cursor fun c hc =>
      isBreak_of_isGap ((isWord_of_safe hkey.nonempty (isSafe_of_mem_key hkey)).gap c hc)).1
  have hstopRest : (cursor.moveTo (':' :: rest)).rest = ':' :: rest := rfl
  have hlength : cursor.rest.length - (':' :: rest).length = key.toList.length := by
    rw [hcursor, List.length_append, Nat.add_sub_cancel]
  have hblank : (':' :: rest).dropWhile Text.isSpaceOrTab = ':' :: rest := rfl
  have hsame := moveTo_rest (cursor.moveTo (':' :: rest))
  rw [hstopRest] at hsame
  have hline : cursor.onOneLine (cursor.moveTo (':' :: rest)) := by
    rw [Cursor.onOneLine, hstopRest, hlength, hcolumn]
    exact decide_eq_true rfl
  have hshort : key.toList.length ≤ maxKeyLength := hkey.short
  rw [key?, scalar?_key hkey hcursor hrest]
  simp only [hline, hstopRest, hlength, hshort, decide_true, Bool.and_self, if_true, hblank, hsame,
    hrest, String.ofList_toList, hcolumn]

/-- Where the value of a key starts, with the text after its colon. -/
def valueStart (place : Nat) (cs : List Char) : Cursor :=
  (Cursor.mk place false cs).toContent false true

/-- A text after the colon of a key in a column that reads as a value, wherever the colon stands and
whatever follows. A value on a line of its own is indented. -/
structure ReadsAs (fuel column : Nat) (text : List Char) (v : Value) : Prop where
  gap : ∀ rest, startsGap (text ++ rest)
  present : ∀ place rest, (valueStart place (text ++ rest)).atEnd = false
  indented : ∀ place rest, (valueStart place (text ++ rest)).fresh →
    column < (valueStart place (text ++ rest)).column
  reads : ∀ more place rest, Follows column rest →
    wholeNode? (fuel + more) (valueStart place (text ++ rest)).fresh (column + 1)
        (valueStart place (text ++ rest)) =
      some (v, lineStart rest)

theorem ReadsAs.mono {fuel fuel' column : Nat} {text : List Char} {v : Value}
    (h : ReadsAs fuel column text v) (hfuel : fuel ≤ fuel') : ReadsAs fuel' column text v where
  gap := h.gap
  present := h.present
  indented := h.indented
  reads := by
    intro more place rest hrest
    obtain ⟨extra, rfl⟩ := Nat.exists_eq_add_of_le hfuel
    rw [Nat.add_assoc]
    exact h.reads (extra + more) place rest hrest

theorem lineStart_fresh {column : Nat} {rest : List Char} (h : Follows column rest) :
    (lineStart rest).fresh := by
  cases h with
  | nothing => rfl
  | key rest _ hc => rw [lineStart_key rest hc]

theorem readsAs_scalar (column : Nat) {s : Scalar} (hs : IsPlainScalar s) :
    ReadsAs 2 column (' ' :: scalarLine (column + 2) s) (.scalar s) := by
  obtain ⟨c, tail, hline, hgap, hcomment⟩ := exists_scalarLine (column + 2) hs
  have hstart (place : Nat) (rest : List Char) :
      valueStart place (' ' :: scalarLine (column + 2) s ++ rest) =
        ⟨place + 1, false, scalarLine (column + 2) s ++ rest⟩ := by
    rw [hline]
    exact (skipGap_spaces false true place 1 false _).trans
      (skipGap_content _ _ _ _ _ hgap hcomment)
  constructor
  case gap => exact fun _ => rfl
  case present =>
    intro place rest
    rw [hstart, hline]
    rfl
  case indented =>
    intro place rest hfresh
    rw [hstart] at hfresh
    cases hfresh
  case reads =>
    intro more place rest hrest
    rw [hstart, Nat.add_comm 2, wholeNode?, node?_scalarLine hs hrest rfl rfl]
    simp [lineStart_fresh hrest]

def fieldLine (column : Nat) (field : Field) : List Char :=
  List.replicate column ' ' ++ (field.key.toList ++ ':' :: field.text)

structure IsField (fuel column : Nat) (field : Field) : Prop where
  key : IsKey field.key
  value : ReadsAs fuel column field.text field.value

theorem follows_line (column : Nat) {key : String} (text : List Char) (h : IsKey key) :
    Follows column (List.replicate column ' ' ++ (key.toList ++ text)) := by
  obtain ⟨c, cs, hkey, hc⟩ := exists_key h
  rw [hkey]
  exact .key _ (Nat.le_refl column) hc

theorem lineStart_line (column : Nat) {key : String} (text : List Char) (h : IsKey key) :
    lineStart (List.replicate column ' ' ++ (key.toList ++ text)) =
      ⟨column, true, key.toList ++ text⟩ := by
  obtain ⟨c, cs, hkey, hc⟩ := exists_key h
  rw [hkey]
  exact lineStart_key _ hc

theorem startsItem_key {column : Nat} {fresh : Bool} {key : String} (text : List Char)
    (h : IsKey key) : startsItem ⟨column, fresh, key.toList ++ text⟩ = false := by
  obtain ⟨c, cs, hkey, hc⟩ := exists_key h
  rw [hkey, startsItem]
  split
  · rename_i heq
    exact absurd (List.cons.inj heq).1 (ne_of_class hc rfl)
  · rfl

theorem atEnd_key {column : Nat} {fresh : Bool} {key : String} (text : List Char) (h : IsKey key) :
    Cursor.atEnd ⟨column, fresh, key.toList ++ text⟩ = false := by
  obtain ⟨c, cs, hkey, hc⟩ := exists_key h
  have hmark (mark : Char) (hmark : isKeyLetter mark = false) :
      startsMark mark (c :: (cs ++ text)) = false := by
    have hne : (c == mark) = false := by simpa using ne_of_class hc hmark
    unfold startsMark
    split
    · rename_i heq
      obtain rfl := (List.cons.inj heq).1
      simp [hne]
    · rfl
  rw [hkey, Cursor.atEnd]
  simp [isBoundary, hmark '-' rfl, hmark '.' rfl]

theorem exists_line {fuel column : Nat} {fields : List Field} (rest : List Char)
    (hne : fields ≠ []) (hfields : ∀ field ∈ fields, IsField fuel column field) :
    ∃ key text, IsKey key ∧ startsGap text ∧
      fields.flatMap (fieldLine column) ++ rest =
        List.replicate column ' ' ++ (key.toList ++ ':' :: text) := by
  obtain ⟨field, others, rfl⟩ := List.exists_cons_of_ne_nil hne
  have hfield := hfields field (by simp)
  refine ⟨field.key, field.text ++ (others.flatMap (fieldLine column) ++ rest), hfield.key,
    hfield.value.gap _, ?_⟩
  simp [fieldLine]

/-- One line of a table: its entry is put into the table, which goes on where the next line starts
in the same column. -/
theorem members?_line {fuel column : Nat} {field : Field} {entries : Table} {rest : List Char}
    (more : Nat) (hfield : IsField fuel column field) (hrest : Follows column rest) :
    members? (fuel + more + 1) column entries (lineStart (fieldLine column field ++ rest)) =
      if (lineStart rest).atEnd || (lineStart rest).column < column then
        some (Table.put field.key field.value entries, lineStart rest)
      else if (lineStart rest).column = column then
        members? (fuel + more) column (Table.put field.key field.value entries) (lineStart rest)
      else none := by
  have hline : fieldLine column field ++ rest =
      List.replicate column ' ' ++ (field.key.toList ++ ':' :: (field.text ++ rest)) := by
    simp [fieldLine]
  have hend := hfield.value.present (column + field.key.toList.length + 1) rest
  have hindented := hfield.value.indented (column + field.key.toList.length + 1) rest
  have hvalue := hfield.value.reads more (column + field.key.toList.length + 1) rest hrest
  rw [hline, lineStart_line column _ hfield.key, members?,
    key?_key hfield.key rfl (hfield.value.gap rest)]
  dsimp only
  rw [← valueStart]
  generalize valueStart (column + field.key.toList.length + 1) (field.text ++ rest) = start
    at hend hindented hvalue ⊢
  have hempty : (start.fresh && start.column < column) = false := by
    cases hfresh : start.fresh with
    | false => rfl
    | true => simpa using Nat.le_of_lt (hindented hfresh)
  have hlist : (start.fresh && start.column = column) = false := by
    cases hfresh : start.fresh with
    | false => rfl
    | true => simpa using Nat.ne_of_gt (hindented hfresh)
  simp only [hend, hempty, hlist, hvalue, Bool.or_self, Bool.false_eq_true, if_false]

theorem members?_lines {fuel column : Nat} {fields : List Field} {rest : List Char}
    (entries : Table) (more : Nat) (hne : fields ≠ [])
    (hfields : ∀ field ∈ fields, IsField fuel column field)
    (hnodup : (entries.map (·.1) ++ fields.map (·.key)).Nodup) (hrest : Follows column rest)
    (hend : (lineStart rest).atEnd || (lineStart rest).column < column) :
    members? (fuel + fields.length + more) column entries
        (lineStart (fields.flatMap (fieldLine column) ++ rest)) =
      some (entries ++ fields.map Field.entry, lineStart rest) := by
  induction fields generalizing entries with
  | nil => exact absurd rfl hne
  | cons field fields ih =>
    obtain ⟨hfield, hothers⟩ := List.forall_mem_cons.mp hfields
    have hput := put_field hnodup
    have hfuel : fuel + (field :: fields).length + more = fuel + (fields.length + more) + 1 := by
      simp only [List.length_cons]
      omega
    rw [hfuel, List.flatMap_cons, List.append_assoc]
    by_cases hlast : fields = []
    · subst hlast
      rw [List.flatMap_nil, List.nil_append, members?_line _ hfield hrest, if_pos hend, hput]
      rfl
    · obtain ⟨key, text, hkey, -, htext⟩ := exists_line rest hlast hothers
      have hnext := ih (entries ++ [field.entry]) hlast hothers
        (by simpa [Field.entry] using hnodup)
      rw [htext] at hnext ⊢
      rw [members?_line _ hfield (follows_line column _ hkey), hput]
      rw [lineStart_line column _ hkey] at hnext ⊢
      rw [atEnd_key _ hkey, ← Nat.add_assoc]
      simpa using hnext

theorem node?_lines {fuel column : Nat} {fields : List Field} {rest : List Char}
    (indent more : Nat) (hne : fields ≠ [])
    (hfields : ∀ field ∈ fields, IsField fuel column field)
    (hnodup : (fields.map (·.key)).Nodup) (hrest : Follows column rest)
    (hend : (lineStart rest).atEnd || (lineStart rest).column < column) :
    node? (fuel + fields.length + more + 1) true indent
        (lineStart (fields.flatMap (fieldLine column) ++ rest)) =
      some (.table (fields.map Field.entry), lineStart rest) := by
  have hmembers := members?_lines [] more hne hfields (by simpa using hnodup) hrest hend
  obtain ⟨key, text, hkey, hgap, htext⟩ := exists_line rest hne hfields
  rw [htext, lineStart_line column _ hkey] at hmembers ⊢
  rw [node?, startsItem_key _ hkey, key?_key hkey rfl hgap, hmembers]
  simp

theorem readsAs_table {fuel column : Nat} {fields : List Field} (hne : fields ≠ [])
    (hfields : ∀ field ∈ fields, IsField fuel (column + 2) field)
    (hnodup : (fields.map (·.key)).Nodup) :
    ReadsAs (fuel + fields.length + 2) column ('\n' :: fields.flatMap (fieldLine (column + 2)))
      (.table (fields.map Field.entry)) := by
  have hstart (place : Nat) (rest : List Char) :
      valueStart place ('\n' :: fields.flatMap (fieldLine (column + 2)) ++ rest) =
        lineStart (fields.flatMap (fieldLine (column + 2)) ++ rest) :=
    toContent_break _ _ _ rfl
  constructor
  case gap => exact fun _ => rfl
  case present =>
    intro place rest
    obtain ⟨key, text, hkey, -, htext⟩ := exists_line rest hne hfields
    rw [hstart, htext, lineStart_line _ _ hkey]
    exact atEnd_key _ hkey
  case indented =>
    intro place rest _
    obtain ⟨key, text, hkey, -, htext⟩ := exists_line rest hne hfields
    rw [hstart, htext, lineStart_line _ _ hkey]
    exact Nat.lt_add_of_pos_right (by decide)
  case reads =>
    intro more place rest hrest
    have hend : (lineStart rest).atEnd || (lineStart rest).column < column + 2 := by
      cases hrest with
      | nothing => rfl
      | key rest hindent hc =>
        rw [lineStart_key rest hc]
        simpa using .inr (by omega)
    have hnode := node?_lines (column + 1) more hne hfields hnodup
      (hrest.mono (Nat.le_add_right column 2)) hend
    have hfuel : fuel + fields.length + 2 + more = fuel + fields.length + more + 1 + 1 := by omega
    obtain ⟨key, text, hkey, -, htext⟩ := exists_line rest hne hfields
    rw [htext] at hnode
    rw [hstart, htext, hfuel, wholeNode?]
    rw [lineStart_line _ _ hkey] at hnode ⊢
    rw [hnode]
    simp [lineStart_fresh hrest]

def fieldOf (column : Nat) (entry : String × Scalar) : Field :=
  ⟨entry.1, ' ' :: scalarLine (column + 2) entry.2, .scalar entry.2⟩

/-- The section of a document as an entry of the table around it. -/
def sectionOf (document : Document) : Field :=
  ⟨document.name, '\n' :: (document.members.map (fieldOf 2)).flatMap (fieldLine 2),
    .table ((document.members.map (fieldOf 2)).map Field.entry)⟩

def fieldsOf (document : Document) : List Field :=
  document.entries.map (fieldOf 0) ++ [sectionOf document]

theorem toList_write (document : Document) :
    (write document).toList = (fieldsOf document).flatMap (fieldLine 0) := by
  have hlines (column : Nat) (entries : List (String × Scalar)) :
      entries.flatMap (entryLine column) =
        entries.flatMap fun entry => fieldLine column (fieldOf column entry) :=
    congrArg (entries.flatMap ·) (funext fun entry => List.append_assoc _ _ _)
  simp [write, fieldsOf, sectionOf, hlines, List.flatMap_map, fieldLine]

theorem toValue_eq (document : Document) :
    document.toValue = .table ((fieldsOf document).map Field.entry) := by
  simp [Document.toValue, fieldsOf, sectionOf, Field.entry, fieldOf]

theorem isField_fieldsOf {document : Document} (h : IsPlain document)
    (hne : document.members ≠ []) :
    ∀ field ∈ fieldsOf document, IsField (document.members.length + 4) 0 field := by
  have hscalar (column : Nat) : ∀ entry ∈ document.entries ++ document.members,
      IsField 2 column (fieldOf column entry) := fun entry hentry =>
    ⟨h.keys entry hentry, readsAs_scalar column (h.scalars entry hentry)⟩
  intro field hfield
  rcases List.mem_append.mp hfield with hplain | hsection
  · obtain ⟨entry, hentry, rfl⟩ := List.mem_map.mp hplain
    have hentry := hscalar 0 entry (List.mem_append_left _ hentry)
    exact ⟨hentry.key, hentry.value.mono (by omega)⟩
  · obtain rfl := List.mem_singleton.mp hsection
    have hmembers : ∀ field ∈ document.members.map (fieldOf 2), IsField 2 2 field := by
      intro field hfield
      obtain ⟨entry, hentry, rfl⟩ := List.mem_map.mp hfield
      exact hscalar 2 entry (List.mem_append_right _ hentry)
    have htable : ReadsAs (2 + (document.members.map (fieldOf 2)).length + 2) 0
        (sectionOf document).text (sectionOf document).value :=
      readsAs_table (by simpa using hne) hmembers
        (by simpa [fieldOf, Function.comp_def] using h.distinctMembers)
    exact ⟨h.name, htable.mono (by rw [List.length_map]; omega)⟩

theorem length_le_lines (column : Nat) (fields : List Field) :
    (fields.flatMap Field.text).length + fields.length ≤
      (fields.flatMap (fieldLine column)).length := by
  induction fields with
  | nil => simp
  | cons field fields ih =>
    simp only [List.flatMap_cons, fieldLine, List.length_append, List.length_cons] at ih ⊢
    omega

theorem fuel_le_length (document : Document) :
    document.members.length + 4 + (fieldsOf document).length ≤
      3 * (write document).toList.length + 2 := by
  have hlines := length_le_lines 0 (fieldsOf document)
  have hmembers := length_le_lines 2 (document.members.map (fieldOf 2))
  rw [toList_write]
  simp only [fieldsOf, sectionOf, List.flatMap_append, List.length_append, List.length_map,
    List.length_cons, List.length_nil, List.flatMap_cons, List.flatMap_nil] at hlines hmembers ⊢
  omega

theorem isOver_key {key : String} (text : List Char) (h : IsKey key) :
    isOver ⟨0, true, key.toList ++ text⟩ = false := by
  have hstart := lineStart_line 0 text h
  have hcontent := toContent_lineStart (follows_line 0 text h) false
  rw [hstart] at hcontent
  obtain ⟨c, cs, hkey, -⟩ := exists_key h
  have hempty : (key.toList ++ text).isEmpty = false := by simp [hkey]
  simp only [isOver, hcontent, atEnd_key text h, hempty, Bool.false_and, Bool.or_self]

theorem document?_lines {fuel : Nat} {fields : List Field} (hne : fields ≠ [])
    (hfields : ∀ field ∈ fields, IsField fuel 0 field)
    (hnodup : (fields.map (·.key)).Nodup)
    (hfuel : fuel + fields.length ≤ 3 * (fields.flatMap (fieldLine 0)).length + 2) :
    document? true (lineStart (fields.flatMap (fieldLine 0))) =
      some (.table (fields.map Field.entry)) := by
  obtain ⟨more, hmore⟩ := Nat.exists_eq_add_of_le hfuel
  have hnode := node?_lines 0 more hne hfields hnodup .nothing rfl
  obtain ⟨key, text, hkey, -, htext⟩ := exists_line [] hne hfields
  rw [List.append_nil] at htext hnode
  rw [← hmore] at hnode
  rw [htext, lineStart_line 0 _ hkey] at hnode ⊢
  have hfresh : (lineStart []).fresh = true := rfl
  have hover : isOver (lineStart []) = true := rfl
  rw [document?, isOver_key _ hkey, wholeNode?]
  rw [List.replicate_zero, List.nil_append] at hnode
  simp only [hnode, hfresh, hover, Bool.true_or, Bool.false_eq_true, if_false, if_true]

theorem read_write {document : Document} (h : IsPlain document) (hne : document.members ≠ []) :
    Yaml.read (write document) = some document.toValue := by
  have hprintable := isPrintable_write h
  have hlines := plainLines_of_isPrintable hprintable
  have hallowed : (write document).toList.all isAllowed = true :=
    List.all_eq_true.mpr fun c hc => isAllowed_of_isPrintable (hprintable c hc)
  have hfields := isField_fieldsOf h hne
  have hfieldsNe : fieldsOf document ≠ [] := by simp [fieldsOf]
  have hnodup : ((fieldsOf document).map (·.key)).Nodup := by
    simpa [fieldsOf, fieldOf, sectionOf, Function.comp_def] using h.distinct
  have hread := document?_lines hfieldsNe hfields hnodup (by
    rw [← toList_write]
    exact fuel_le_length document)
  obtain ⟨key, text, hkey, -, htext⟩ := exists_line [] hfieldsNe hfields
  have hstart := lineStart_line 0 (':' :: text) hkey
  rw [List.append_nil, ← toList_write, List.replicate_zero, List.nil_append] at htext
  rw [List.replicate_zero, List.nil_append, ← htext, lineStart, Cursor.toContent] at hstart
  rw [← toList_write, ← toValue_eq, lineStart, Cursor.toContent, hstart] at hread
  have hend : Cursor.atEnd ⟨0, true, (write document).toList⟩ = false := by
    rw [htext]
    exact atEnd_key _ hkey
  obtain ⟨c, cs, hcons⟩ : ∃ c cs, (write document).toList = c :: cs := by
    obtain ⟨c, cs, hcons, -⟩ := exists_key hkey
    exact ⟨c, cs ++ ':' :: text, by rw [htext, hcons, List.cons_append]⟩
  have hmark : c ≠ '\uFEFF' := by
    rintro rfl
    exact absurd (hprintable '\uFEFF' (by simp [hcons])) (by decide)
  rw [hcons] at hlines hallowed hstart hend hread
  simp only [Yaml.read, hcons, hlines, hmark, hallowed, Cursor.toContent, hstart, hend, hread,
    List.cons.injEq, false_and, imp_false, not_false_eq_true, implies_true, Bool.not_true,
    Bool.false_and, Bool.false_eq_true, if_false]
  rw [toValue_eq]

end PocketCalculator.Proofs.YamlDocuments
