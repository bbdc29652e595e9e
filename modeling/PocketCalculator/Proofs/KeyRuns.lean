import Mathlib.Data.List.Chain
import PocketCalculator.Proofs.KeySplitting

namespace PocketCalculator.Proofs.KeyRuns

open PocketCalculator.Keypad
open PocketCalculator.Proofs.KeySplitting

/-- What is taken from the start of a text: the longest spelling there, with its key, or a single
character, which is its own key, if there is no spelling. -/
inductive IsTaken : List Char × String → List Char → Prop where
  | spelling {piece : List Char × String} {text : List Char} : piece ∈ spellings →
      piece.1 <+: text →
      (∀ other ∈ spellings, other.1 <+: text → other.1.length ≤ piece.1.length) →
      IsTaken piece text
  | character {c : Char} {rest : List Char} : (∀ other ∈ spellings, ¬ other.1 <+: c :: rest) →
      IsTaken ([c], String.singleton c) (c :: rest)

/-- The word is the given pieces, one after the other, and each is taken where it stands. -/
structure IsCut (word : List Char) (pieces : List (List Char × String)) : Prop where
  text_eq : pieces.flatMap Prod.fst = word
  nonempty : ∀ piece ∈ pieces, piece.1 ≠ []
  taken : ∀ piece later, piece :: later <:+ pieces →
    IsTaken piece ((piece :: later).flatMap Prod.fst)

theorem isCut_nil {word : List Char} : IsCut word [] ↔ word = [] := by
  constructor
  · rintro ⟨rfl, -, -⟩
    rfl
  · rintro rfl
    exact ⟨rfl, nofun, fun piece later h => absurd h (by simp)⟩

theorem isCut_cons {word : List Char} {piece : List Char × String}
    {pieces : List (List Char × String)} :
    IsCut word (piece :: pieces) ↔
      ∃ rest, piece.1 ++ rest = word ∧ piece.1 ≠ [] ∧ IsTaken piece word ∧ IsCut rest pieces := by
  constructor
  · rintro ⟨rfl, hnonempty, htaken⟩
    refine ⟨pieces.flatMap Prod.fst, rfl, hnonempty piece List.mem_cons_self,
      htaken piece pieces (List.suffix_refl _), rfl, ?_, ?_⟩
    · intro other hother
      exact hnonempty other (List.mem_cons_of_mem _ hother)
    · intro other later hsuffix
      exact htaken other later (hsuffix.trans (List.suffix_cons piece pieces))
  · rintro ⟨rest, rfl, hne, htaken, rfl, hnonempty, hlater⟩
    refine ⟨rfl, List.forall_mem_cons.mpr ⟨hne, hnonempty⟩, ?_⟩
    intro other later hsuffix
    rcases List.suffix_cons_iff.mp hsuffix with heq | hsuffix
    · obtain ⟨rfl, rfl⟩ := List.cons.inj heq
      exact htaken
    · exact hlater other later hsuffix

theorem splitKeys_of_isTaken {piece : List Char × String} {rest : List Char}
    (hne : piece.1 ≠ []) (h : IsTaken piece (piece.1 ++ rest)) :
    splitKeys (piece.1 ++ rest) = piece.2 :: splitKeys rest := by
  generalize htext : piece.1 ++ rest = text at h
  cases h with
  | spelling hmem hstart hlongest =>
      rw [← htext] at hstart hlongest ⊢
      exact splitKeys_of_some hne (longestSpelling?_eq_some hmem hstart hlongest)
  | @character c after hnone =>
      obtain ⟨-, rfl⟩ := List.cons.inj htext
      rcases longestSpelling?_spec (c :: rest) with ⟨hlongest, -⟩ | ⟨entry, -, hmem, hstart, -⟩
      · exact splitKeys_of_none hlongest
      · exact absurd hstart (hnone entry hmem)

theorem IsCut.splitKeys_eq {word : List Char} {pieces : List (List Char × String)}
    (h : IsCut word pieces) : splitKeys word = pieces.map Prod.snd := by
  induction pieces generalizing word with
  | nil =>
      obtain rfl := isCut_nil.mp h
      rw [splitKeys, List.map_nil]
  | cons piece pieces ih =>
      obtain ⟨rest, rfl, hne, htaken, hrest⟩ := isCut_cons.mp h
      rw [splitKeys_of_isTaken hne htaken, ih hrest, List.map_cons]

theorem exists_isTaken (c : Char) (rest : List Char) :
    ∃ piece later, piece.1 ++ later = c :: rest ∧ piece.1 ≠ [] ∧ IsTaken piece (c :: rest) := by
  rcases longestSpelling?_spec (c :: rest) with ⟨-, hnone⟩ | ⟨piece, -, hmem, hstart, hlongest⟩
  · exact ⟨([c], String.singleton c), rest, rfl, List.cons_ne_nil c [], .character hnone⟩
  · obtain ⟨tail, hpiece, -⟩ := exists_tail_of_mem_spellings hmem hstart
    obtain ⟨later, hlater⟩ := hstart
    refine ⟨piece, later, hlater, ?_, .spelling hmem ⟨later, hlater⟩ hlongest⟩
    rw [hpiece]
    exact List.cons_ne_nil c tail

theorem exists_isCut (word : List Char) : ∃ pieces, IsCut word pieces := by
  induction hlength : word.length using Nat.strongRecOn generalizing word with
  | ind n ih =>
      cases word with
      | nil => exact ⟨[], isCut_nil.mpr rfl⟩
      | cons c rest =>
          obtain ⟨piece, later, hword, hne, htaken⟩ := exists_isTaken c rest
          have hshorter : later.length < n := by
            have hpos := List.length_pos_iff.mpr hne
            rw [← hlength, ← hword, List.length_append]
            omega
          obtain ⟨pieces, hpieces⟩ := ih later.length hshorter later rfl
          exact ⟨piece :: pieces, isCut_cons.mpr ⟨later, hword, hne, htaken, hpieces⟩⟩

theorem splitKeys_eq_iff {word : List Char} {keys : List String} :
    splitKeys word = keys ↔ ∃ pieces, IsCut word pieces ∧ pieces.map Prod.snd = keys := by
  constructor
  · rintro rfl
    obtain ⟨pieces, hpieces⟩ := exists_isCut word
    exact ⟨pieces, hpieces, hpieces.splitKeys_eq.symm⟩
  · rintro ⟨pieces, hpieces, rfl⟩
    exact hpieces.splitKeys_eq

theorem mem_spellings_of_key {key : String} (h : key ∈ calculatorKeys) :
    (key.toList, key) ∈ spellings :=
  List.mem_append_left _ (List.mem_map_of_mem h)

theorem toList_key_ne_nil {key : String} (h : key ∈ calculatorKeys) : key.toList ≠ [] := by
  have hall : ∀ key ∈ calculatorKeys, key.toList ≠ [] := by
    decide
  exact hall key h

/-- What a longer spelling goes on with after a key: a slash, or a parenthesis after the root
key. -/
theorem head?_of_longer {key : String} {other : List Char × String} {tail : List Char}
    (hkey : key ∈ calculatorKeys) (hother : other ∈ spellings)
    (htail : other.1 = key.toList ++ tail) (hne : tail ≠ []) :
    tail.head? = some '/' ∨ key = "√" ∧ tail.head? = some '(' := by
  have hall : ∀ key ∈ calculatorKeys, ∀ other ∈ spellings, key.toList <+: other.1 →
      other.1.drop key.toList.length = [] ∨
        (other.1.drop key.toList.length).head? = some '/' ∨
          key = "√" ∧ (other.1.drop key.toList.length).head? = some '(' := by
    decide
  have hlonger := hall key hkey other hother ⟨tail, htail.symm⟩
  rw [htail, List.drop_left] at hlonger
  exact hlonger.resolve_left hne

theorem head?_key {key : String} (h : key ∈ calculatorKeys) :
    key.toList.head? ≠ some '/' ∧ (key.toList.head? = some '(' → key = "(") := by
  have hall : ∀ key ∈ calculatorKeys,
      key.toList.head? ≠ some '/' ∧ (key.toList.head? = some '(' → key = "(") := by
    decide
  exact hall key h

theorem head?_keys {keys : List String} {c : Char} (h : ∀ key ∈ keys, key ∈ calculatorKeys)
    (hhead : (keys.flatMap String.toList).head? = some c) :
    ∃ key ∈ keys.head?, key ∈ calculatorKeys ∧ key.toList.head? = some c := by
  cases keys with
  | nil => cases hhead
  | cons key keys =>
      have hkey := h key List.mem_cons_self
      rw [List.flatMap_cons, List.head?_append_of_ne_nil _ (toList_key_ne_nil hkey)] at hhead
      exact ⟨key, rfl, hkey, hhead⟩

theorem isTaken_key {key : String} {keys : List String} (hkey : key ∈ calculatorKeys)
    (hkeys : ∀ next ∈ keys, next ∈ calculatorKeys)
    (hroot : ∀ next ∈ keys.head?, ¬ (key = "√" ∧ next = "(")) :
    IsTaken (key.toList, key) (key.toList ++ keys.flatMap String.toList) := by
  refine .spelling (mem_spellings_of_key hkey) (List.prefix_append _ _) ?_
  intro other hother hstart
  apply Nat.le_of_not_lt
  intro hlonger
  obtain ⟨tail, htail⟩ : key.toList <+: other.1 :=
    List.prefix_of_prefix_length_le (List.prefix_append _ _) hstart (Nat.le_of_lt hlonger)
  rw [← htail, List.prefix_append_right_inj] at hstart
  have hne : tail ≠ [] := by
    rintro rfl
    simp [← htail] at hlonger
  rcases head?_of_longer hkey hother htail.symm hne with hslash | ⟨rfl, hparen⟩
  · obtain ⟨next, -, hnext, hhead⟩ := head?_keys hkeys (head?_of_isPrefix hstart hslash)
    exact (head?_key hnext).1 hhead
  · obtain ⟨next, hmem, hnext, hhead⟩ := head?_keys hkeys (head?_of_isPrefix hstart hparen)
    exact hroot next hmem ⟨rfl, (head?_key hnext).2 hhead⟩

theorem isCut_keys {keys : List String} (h : ∀ key ∈ keys, key ∈ calculatorKeys)
    (hroot : keys.IsChain fun key next => ¬ (key = "√" ∧ next = "(")) :
    IsCut (keys.flatMap String.toList) (keys.map fun key => (key.toList, key)) := by
  induction keys with
  | nil => exact isCut_nil.mpr rfl
  | cons key keys ih =>
      obtain ⟨hkey, hkeys⟩ := List.forall_mem_cons.mp h
      obtain ⟨hnext, hchain⟩ := List.isChain_cons.mp hroot
      exact isCut_cons.mpr ⟨keys.flatMap String.toList, rfl, toList_key_ne_nil hkey,
        isTaken_key hkey hkeys hnext, ih hkeys hchain⟩

/-- Keys that are typed together are told apart again, unless a parenthesis is typed right behind a
root key. Any word at all is cut into pieces in order, the longest spelling first each time, and its
keys are those of the pieces. -/
theorem splitKeys_decodes :
    (∀ keys : List String, (∀ key ∈ keys, key ∈ calculatorKeys) →
      (keys.IsChain fun key next => ¬ (key = "√" ∧ next = "(")) →
        splitKeys (keys.flatMap String.toList) = keys) ∧
      ∀ (word : List Char) (keys : List String),
        splitKeys word = keys ↔ ∃ pieces, IsCut word pieces ∧ pieces.map Prod.snd = keys := by
  constructor
  · intro keys hkeys hroot
    rw [(isCut_keys hkeys hroot).splitKeys_eq, List.map_map]
    exact List.map_id keys
  · intro word keys
    exact splitKeys_eq_iff

/-- Keys whose texts run into each other. -/
def touchingKeys : List String :=
  ["1", "1/x", "+", "+/-", "√", "√", "sin(", "e", "(", "Mod", "DEL"]

theorem splitKeys_decodes_touching :
    (∀ key ∈ touchingKeys, key ∈ calculatorKeys) ∧
      (touchingKeys.IsChain fun key next => ¬ (key = "√" ∧ next = "(")) ∧
      splitKeys "11/x++/-√√sin(e(ModDEL".toList = touchingKeys := by
  have hkeys : ∀ key ∈ touchingKeys, key ∈ calculatorKeys := by
    decide
  have hroot : touchingKeys.IsChain fun key next => ¬ (key = "√" ∧ next = "(") := by
    decide
  exact ⟨hkeys, hroot, splitKeys_decodes.1 touchingKeys hkeys hroot⟩

end PocketCalculator.Proofs.KeyRuns
