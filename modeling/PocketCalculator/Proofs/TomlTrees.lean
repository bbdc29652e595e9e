import PocketCalculator.Proofs.LayeredTrees

namespace PocketCalculator.Proofs.TomlTrees

open PocketCalculator.Settings
open PocketCalculator.Settings.Toml
open PocketCalculator.Proofs.LayeredTrees

/-- Entries that are a tree once all of them are read. -/
def IsDraft (entries : Entries) : Prop := IsTree IsFull (.table (Node.entriesValue entries))

theorem isDraft_nil : IsDraft [] := isTree_nil

theorem entriesValue_put (key : String) (node : Node) (entries : Entries) :
    Node.entriesValue (Entries.put key node entries) =
      Table.put key node.toValue (Node.entriesValue entries) := by
  induction entries with
  | nil => rfl
  | cons entry entries ih =>
      rw [Entries.put, Node.entriesValue, Node.entryValue, Table.put]
      split
      case isTrue => rfl
      case isFalse => rw [Node.entriesValue, Node.entryValue, ih]

theorem get?_entriesValue (key : String) (entries : Entries) :
    Table.get? (Node.entriesValue entries) key = (Entries.get? entries key).map Node.toValue := by
  induction entries with
  | nil => rfl
  | cons entry entries ih =>
      rw [Node.entriesValue, Node.entryValue, get?_cons]
      by_cases hkey : entry.1 = key
      · simp [Entries.get?, hkey]
      · simpa [Entries.get?, hkey] using ih

theorem IsDraft.put {key : String} {node : Node} {entries : Entries} (h : IsDraft entries)
    (hnode : IsTree IsFull node.toValue) : IsDraft (Entries.put key node entries) := by
  rw [IsDraft, entriesValue_put]
  exact IsTree.put h hnode

theorem IsDraft.get? {key : String} {node : Node} {entries : Entries} (h : IsDraft entries)
    (hnode : Entries.get? entries key = some node) : IsTree IsFull node.toValue := by
  have hvalue : Table.get? (Node.entriesValue entries) key = some node.toValue := by
    rw [get?_entriesValue, hnode, Option.map_some]
  exact IsTree.get? h hvalue

theorem isTree_tables {earlier : List Entries} {last : Entries} :
    IsTree IsFull (Node.tables earlier last).toValue ↔
      (∀ v ∈ Node.tablesValue earlier, IsTree IsFull v) ∧ IsDraft last := by
  rw [Node.toValue, isTree_list, List.forall_mem_append, List.forall_mem_singleton, IsDraft]

theorem tablesValue_append (earlier : List Entries) (last : Entries) :
    Node.tablesValue (earlier ++ [last]) =
      Node.tablesValue earlier ++ [.table (Node.entriesValue last)] := by
  induction earlier with
  | nil => rfl
  | cons first earlier ih => rw [List.cons_append, Node.tablesValue, Node.tablesValue, ih]; rfl

theorem isDraft_change {dotted : Bool} {f : Origin → Entries → Option Entries}
    (hf : ∀ {origin inner changed}, IsDraft inner → f origin inner = some changed →
      IsDraft changed)
    {path : List String} {origin : Origin} {entries changed : Entries} (h : IsDraft entries)
    (hchange : Entries.change dotted f path origin entries = some changed) : IsDraft changed := by
  induction path generalizing origin entries changed with
  | nil => exact hf h hchange
  | cons key path ih =>
      rw [Entries.change] at hchange
      split at hchange
      · obtain ⟨inner, hinner, rfl⟩ := Option.map_eq_some_iff.mp hchange
        exact h.put (ih isDraft_nil hinner)
      · cases hchange
      · next old hold =>
          split at hchange
          case isTrue => cases hchange
          case isFalse =>
            obtain ⟨inner, hinner, rfl⟩ := Option.map_eq_some_iff.mp hchange
            exact h.put (ih (h.get? hold) hinner)
      · next hold =>
          obtain ⟨inner, hinner, rfl⟩ := Option.map_eq_some_iff.mp hchange
          obtain ⟨hearlier, hlast⟩ := isTree_tables.mp (h.get? hold)
          exact h.put (isTree_tables.mpr ⟨hearlier, ih hlast hinner⟩)

theorem isDraft_add {path : List String} {v : Value} {origin : Origin}
    {entries changed : Entries} (h : IsDraft entries) (hv : IsTree IsFull v)
    (hadd : Entries.add path v origin entries = some changed) : IsDraft changed := by
  unfold Entries.add at hadd
  split at hadd
  · cases hadd
  · refine isDraft_change ?_ h hadd
    intro origin inner changed hinner hinsert
    split at hinsert
    case isTrue => cases hinsert
    case isFalse =>
      cases hinsert
      exact hinner.put hv

theorem isDraft_addTable {path : List String} {entries changed : Entries} (h : IsDraft entries)
    (hadd : Entries.addTable path entries = some changed) : IsDraft changed := by
  unfold Entries.addTable at hadd
  split at hadd
  · cases hadd
  · refine isDraft_change ?_ h hadd
    intro origin inner changed hinner hdefine
    split at hdefine
    · cases hdefine
      exact hinner.put isDraft_nil
    · next old hold =>
        cases hdefine
        have hdraft : IsDraft old := hinner.get? hold
        exact hinner.put hdraft
    · cases hdefine

theorem isDraft_addToTables {path : List String} {entries changed : Entries} (h : IsDraft entries)
    (hadd : Entries.addToTables path entries = some changed) : IsDraft changed := by
  unfold Entries.addToTables at hadd
  split at hadd
  · cases hadd
  · refine isDraft_change ?_ h hadd
    intro origin inner changed hinner hdefine
    split at hdefine
    · cases hdefine
      exact hinner.put (isTree_tables.mpr ⟨List.forall_mem_nil _, isDraft_nil⟩)
    · next hold =>
        cases hdefine
        obtain ⟨hearlier, hlast⟩ := isTree_tables.mp (hinner.get? hold)
        refine hinner.put (isTree_tables.mpr ⟨?_, isDraft_nil⟩)
        rw [tablesValue_append, List.forall_mem_append, List.forall_mem_singleton]
        exact ⟨hearlier, hlast⟩
    · cases hdefine

theorem isDraft_draftAdd {draft next : Draft} {path : List String} {v : Value}
    (h : IsDraft draft.root) (hv : IsTree IsFull v) (hadd : draft.add path v = some next) :
    IsDraft next.root := by
  obtain ⟨root, hroot, rfl⟩ := Option.map_eq_some_iff.mp hadd
  exact isDraft_change (fun hinner hinsert => isDraft_add hinner hv hinsert) h hroot

theorem isDraft_openTable {draft next : Draft} {path : List String} (h : IsDraft draft.root)
    (hopen : draft.openTable path = some next) : IsDraft next.root := by
  obtain ⟨root, hroot, rfl⟩ := Option.map_eq_some_iff.mp hopen
  exact isDraft_addTable h hroot

theorem isDraft_openNextTable {draft next : Draft} {path : List String} (h : IsDraft draft.root)
    (hopen : draft.openNextTable path = some next) : IsDraft next.root := by
  obtain ⟨root, hroot, rfl⟩ := Option.map_eq_some_iff.mp hopen
  exact isDraft_addToTables h hroot

theorem isTree_integerOf {n : Int} {v : Value} (h : integerOf? n = some v) : IsTree IsFull v := by
  rw [integerOf?] at h
  split at h
  case isTrue =>
    cases h
    exact isTree_integer n
  case isFalse => cases h

theorem isTree_based {base : Nat} {digits : List Char} {v : Value}
    (h : ((basedInteger? base digits).bind fun n => integerOf? n) = some v) : IsTree IsFull v := by
  obtain ⟨n, -, hn⟩ := Option.bind_eq_some_iff.mp h
  exact isTree_integerOf hn

theorem isTree_decimal {cs : List Char} {v : Value} (h : decimal? cs = some v) :
    IsTree IsFull v := by
  unfold decimal? at h
  split at h
  · cases h
  · dsimp only at h
    split at h
    · cases h
    · split at h
      · split at h
        case isTrue =>
          cases h
          exact .fraction _
        case isFalse => cases h
      · exact isTree_integerOf h

theorem isTree_bareValue {cs : List Char} {v : Value} (h : bareValue? cs = some v) :
    IsTree IsFull v := by
  unfold bareValue? at h
  split at h
  · cases h
    exact isTree_truth true
  · split at h
    · cases h
      exact isTree_truth false
    · split at h
      · cases h
        exact isTree_entry (isTree_text _)
      · split at h
        · cases h
          exact .fraction _
        · split at h
          · exact isTree_based h
          · exact isTree_based h
          · exact isTree_based h
          · exact isTree_decimal h

mutual

theorem isTree_tomlValue {fuel depth : Nat} {cs rest : List Char} {v : Value}
    (h : value? fuel depth cs = some (v, rest)) : IsTree IsFull v := by
  cases fuel with
  | zero => cases h
  | succ fuel =>
      unfold value? at h
      split at h
      · split at h
        · cases h
        · obtain ⟨⟨vs, after⟩, hitems, ⟨⟩⟩ := Option.map_eq_some_iff.mp h
          exact .list (isTree_tomlItems hitems)
      · split at h
        · cases h
        · split at h
          · cases h
            exact isTree_nil
          · obtain ⟨⟨entries, after⟩, hentries, ⟨⟩⟩ := Option.map_eq_some_iff.mp h
            exact isDraft_tomlMembers isDraft_nil hentries
      · split at h
        · obtain ⟨⟨s, after⟩, -, ⟨⟩⟩ := Option.map_eq_some_iff.mp h
          exact isTree_text _
        · obtain ⟨found, hfound, ⟨⟩⟩ := Option.map_eq_some_iff.mp h
          exact isTree_bareValue hfound

theorem isTree_tomlItems {fuel depth : Nat} {cs rest : List Char} {vs : List Value}
    (h : items? fuel depth cs = some (vs, rest)) : ∀ v ∈ vs, IsTree IsFull v := by
  cases fuel with
  | zero => cases h
  | succ fuel =>
      unfold items? at h
      split at h
      · cases h
        exact List.forall_mem_nil _
      · split at h
        · cases h
        · next hv =>
            split at h
            · obtain ⟨⟨vs, after⟩, hvs, ⟨⟩⟩ := Option.map_eq_some_iff.mp h
              exact List.forall_mem_cons.mpr ⟨isTree_tomlValue hv, isTree_tomlItems hvs⟩
            · cases h
              exact List.forall_mem_singleton.mpr (isTree_tomlValue hv)
            · cases h

theorem isDraft_tomlMembers {fuel depth : Nat} {entries entries' : Entries} {cs rest : List Char}
    (hentries : IsDraft entries) (h : members? fuel depth entries cs = some (entries', rest)) :
    IsDraft entries' := by
  cases fuel with
  | zero => cases h
  | succ fuel =>
      unfold members? at h
      split at h
      · split at h
        · cases h
        · next hv =>
            split at h
            · cases h
            · next hadd =>
                have hadded := isDraft_add hentries (isTree_tomlValue hv) hadd
                split at h
                · exact isDraft_tomlMembers hadded h
                · cases h
                  exact hadded
                · cases h
      · cases h

end

theorem isTree_tomlEntry {cs rest : List Char} {path : List String} {v : Value}
    (h : entry? cs = some (path, v, rest)) : IsTree IsFull v := by
  unfold entry? at h
  split at h
  · obtain ⟨⟨found, after⟩, hfound, ⟨⟩⟩ := Option.map_eq_some_iff.mp h
    exact isTree_tomlValue hfound
  · cases h

theorem isDraft_readLines {fuel : Nat} {draft read : Draft} {cs : List Char}
    (hdraft : IsDraft draft.root) (h : readLines fuel draft cs = some read) :
    IsDraft read.root := by
  induction fuel generalizing draft cs with
  | zero => cases h
  | succ fuel ih =>
      unfold readLines at h
      split at h
      · cases h
        exact hdraft
      · split at h
        · split at h
          · next hopen _ => exact ih (isDraft_openNextTable hdraft hopen) h
          · cases h
        · cases h
      · split at h
        · split at h
          · next hopen _ => exact ih (isDraft_openTable hdraft hopen) h
          · cases h
        · cases h
      · split at h
        · next hentry =>
            split at h
            · next hadd _ => exact ih (isDraft_draftAdd hdraft (isTree_tomlEntry hentry) hadd) h
            · cases h
        · cases h

theorem isTree_toml {text : String} {v : Value} (h : Toml.read text = some v) :
    IsTree IsFull v := by
  obtain ⟨draft, hdraft, rfl⟩ := Option.map_eq_some_iff.mp h
  exact isDraft_readLines isDraft_nil hdraft

end PocketCalculator.Proofs.TomlTrees
