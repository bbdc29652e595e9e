import Mathlib.Data.List.Nodup
import PocketCalculator.Proofs.PlainDocuments

/-!
Trees of values laid over each other. A value at the end of a path of keys comes from the uppermost
tree that has one there, as long as every tree has tables on the way, and no two of the values are
tables themselves.
-/

namespace PocketCalculator.Proofs.LayeredTrees

open PocketCalculator.Settings
open PocketCalculator.Settings.Value

/-- A tree in which no table has a key twice, and all scalars are of some kind. -/
inductive IsTree (allowed : Scalar → Prop) : Value → Prop where
  | scalar {s : Scalar} : allowed s → IsTree allowed (.scalar s)
  | fraction (written : String) : IsTree allowed (.fraction written)
  | list {items : List Value} : (∀ v ∈ items, IsTree allowed v) → IsTree allowed (.list items)
  | table {entries : Table} : (entries.map (·.1)).Nodup →
      (∀ entry ∈ entries, IsTree allowed entry.2) → IsTree allowed (.table entries)

/-- The scalars that say something. -/
def IsFull (s : Scalar) : Prop := s ≠ .empty

def IsTable : Value → Prop
  | .table _ => True
  | _ => False

/-- The value at the end of a path of keys. -/
def at? : List String → Value → Option Value
  | [], v => some v
  | key :: path, .table entries => (Table.get? entries key).bind (at? path)
  | _ :: _, _ => none

/-- Whether nothing but tables stands on a path before its end. -/
def Opens : List String → Value → Prop
  | [], _ => True
  | key :: path, .table entries => ∀ inner ∈ Table.get? entries key, Opens path inner
  | _ :: _, _ => False

instance decidableOpens : (path : List String) → (v : Value) → Decidable (Opens path v)
  | [], _ => isTrue trivial
  | key :: path, .table entries =>
    have := decidableOpens path
    inferInstanceAs (Decidable (∀ inner ∈ Table.get? entries key, Opens path inner))
  | _ :: _, .scalar _ => isFalse id
  | _ :: _, .fraction _ => isFalse id
  | _ :: _, .list _ => isFalse id

/-- Whether a value at the end of a path in the upper tree replaces the one in the lower tree. -/
def Replaces (path : List String) (lower upper : Value) : Prop :=
  ∀ old new, at? path lower = some old → at? path upper = some new → old.overlay new = new

/-- What a value becomes that is laid over another one or over none. -/
def layered (lower : Option Value) (upper : Value) : Value :=
  match lower with
  | some lower => lower.overlay upper
  | none => upper

variable {allowed : Scalar → Prop} {path : List String}

@[simp] theorem get?_nil (key : String) : Table.get? [] key = none := rfl

theorem get?_cons (entry : String × Value) (entries : Table) (key : String) :
    Table.get? (entry :: entries) key =
      if entry.1 = key then some entry.2 else Table.get? entries key := by
  by_cases h : entry.1 = key <;> simp [Table.get?, h]

theorem mem_of_get? {entries : Table} {key : String} {v : Value}
    (h : Table.get? entries key = some v) : (key, v) ∈ entries := by
  obtain ⟨entry, hfind, rfl⟩ := Option.map_eq_some_iff.mp h
  have hkey : entry.1 = key := by simpa using List.find?_some hfind
  rw [← hkey]
  exact List.mem_of_find?_eq_some hfind

theorem get?_eq_none {entries : Table} {key : String} (h : key ∉ entries.map (·.1)) :
    Table.get? entries key = none := by
  rw [Option.eq_none_iff_forall_ne_some]
  intro v hv
  exact h (List.mem_map_of_mem (f := (·.1)) (mem_of_get? hv))

theorem get?_put (key other : String) (v : Value) (entries : Table) :
    Table.get? (Table.put key v entries) other =
      if key = other then some v else Table.get? entries other := by
  induction entries with
  | nil => simp [Table.put, get?_cons]
  | cons entry entries ih =>
      rw [Table.put]
      split
      case isTrue h =>
        subst h
        by_cases hother : entry.1 = other <;> simp [get?_cons, hother]
      case isFalse h =>
        by_cases hother : entry.1 = other
        · have hkey : key ≠ other := by
            rintro rfl
            exact h hother
          simp [get?_cons, hother, hkey]
        · simp [get?_cons, hother, ih]

theorem mem_put {key : String} {v : Value} {entries : Table} {entry : String × Value}
    (h : entry ∈ Table.put key v entries) : entry = (key, v) ∨ entry ∈ entries := by
  induction entries with
  | nil => exact Or.inl (List.mem_singleton.mp h)
  | cons first entries ih =>
      rw [Table.put] at h
      split at h
      case isTrue hkey =>
        rcases List.mem_cons.mp h with rfl | h
        · exact Or.inl (by rw [hkey])
        · exact Or.inr (List.mem_cons_of_mem _ h)
      case isFalse =>
        rcases List.mem_cons.mp h with rfl | h
        · exact Or.inr List.mem_cons_self
        · exact (ih h).imp_right (List.mem_cons_of_mem _)

theorem nodup_keys_put {key : String} {entries : Table} (v : Value)
    (h : (entries.map (·.1)).Nodup) : ((Table.put key v entries).map (·.1)).Nodup := by
  induction entries with
  | nil => exact List.nodup_singleton key
  | cons first entries ih =>
      obtain ⟨hfirst, hentries⟩ := List.nodup_cons.mp h
      rw [Table.put]
      split
      case isTrue => exact h
      case isFalse hkey =>
        refine List.nodup_cons.mpr ⟨?_, ih hentries⟩
        intro hmem
        obtain ⟨entry, hentry, heq⟩ := List.mem_map.mp hmem
        rcases mem_put hentry with rfl | hentry
        · exact hkey heq.symm
        · exact hfirst (heq ▸ List.mem_map_of_mem (f := (·.1)) hentry)

theorem IsTree.mono {kind : Scalar → Prop} {v : Value} (h : IsTree allowed v)
    (hkind : ∀ s, allowed s → kind s) : IsTree kind v := by
  induction h with
  | scalar hs => exact .scalar (hkind _ hs)
  | fraction written => exact .fraction written
  | list _ ih => exact .list ih
  | table hkeys _ ih => exact .table hkeys ih

theorem isTree_table {entries : Table} :
    IsTree allowed (.table entries) ↔
      (entries.map (·.1)).Nodup ∧ ∀ entry ∈ entries, IsTree allowed entry.2 :=
  ⟨fun | .table hkeys hvalues => ⟨hkeys, hvalues⟩, fun h => .table h.1 h.2⟩

theorem isTree_list {items : List Value} :
    IsTree allowed (.list items) ↔ ∀ v ∈ items, IsTree allowed v :=
  ⟨fun | .list hitems => hitems, .list⟩

theorem isTree_text (s : String) : IsTree IsFull (.scalar (.text s)) := .scalar nofun

theorem isTree_truth (b : Bool) : IsTree IsFull (.scalar (.truth b)) := .scalar nofun

theorem isTree_integer (n : Int) : IsTree IsFull (.scalar (.integer n)) := .scalar nofun

theorem isTree_nil : IsTree allowed (.table []) := .table List.nodup_nil nofun

theorem isTree_entry {key : String} {v : Value} (h : IsTree allowed v) :
    IsTree allowed (.table [(key, v)]) :=
  .table (List.nodup_singleton key) (List.forall_mem_singleton.mpr h)

theorem IsTree.put {key : String} {v : Value} {entries : Table}
    (h : IsTree allowed (.table entries)) (hv : IsTree allowed v) :
    IsTree allowed (.table (Table.put key v entries)) := by
  cases h with
  | table hkeys hvalues =>
      refine .table (nodup_keys_put v hkeys) ?_
      intro entry hentry
      rcases mem_put hentry with rfl | hentry
      · exact hv
      · exact hvalues entry hentry

theorem IsTree.get? {key : String} {v : Value} {entries : Table}
    (h : IsTree allowed (.table entries)) (hv : Table.get? entries key = some v) :
    IsTree allowed v := by
  cases h with
  | table _ hvalues => exact hvalues _ (mem_of_get? hv)

theorem IsTree.at? {v inner : Value} (h : IsTree allowed v) (hinner : at? path v = some inner) :
    IsTree allowed inner := by
  induction path generalizing v with
  | nil => exact Option.some.inj hinner ▸ h
  | cons key path ih =>
      cases v with
      | table entries =>
          obtain ⟨next, hnext, hinner⟩ := Option.bind_eq_some_iff.mp hinner
          exact ih (h.get? hnext) hinner
      | scalar s => cases hinner
      | fraction written => cases hinner
      | list items => cases hinner

theorem at?_append (path more : List String) (v : Value) :
    at? (path ++ more) v = (at? path v).bind (at? more) := by
  induction path generalizing v with
  | nil => rfl
  | cons key path ih =>
      cases v with
      | table entries => cases h : Table.get? entries key <;> simp [at?, h, ih]
      | scalar s => rfl
      | fraction written => rfl
      | list items => rfl

theorem opens_of_at? {v inner : Value} (h : at? path v = some inner) : Opens path v := by
  induction path generalizing v with
  | nil => trivial
  | cons key path ih =>
      cases v with
      | table entries =>
          obtain ⟨next, hnext, hinner⟩ := Option.bind_eq_some_iff.mp h
          intro other hother
          obtain rfl := Option.some.inj (hnext.symm.trans hother)
          exact ih hinner
      | scalar s => cases h
      | fraction written => cases h
      | list items => cases h

theorem overlay_of_not_isTable {lower upper : Value} (h : ¬ IsTable lower ∨ ¬ IsTable upper) :
    lower.overlay upper = upper := by
  cases upper with
  | table entries =>
      cases lower with
      | table entries' => simp [IsTable] at h
      | scalar s => rfl
      | fraction written => rfl
      | list items => rfl
  | scalar s => rfl
  | fraction written => rfl
  | list items => rfl

theorem overlay_table (lower upper : Table) :
    (Value.table lower).overlay (.table upper) = .table (overlayEntries lower upper) := by
  rw [overlay]

theorem overlayEntries_cons (lower : Table) (entry : String × Value) (upper : Table) :
    overlayEntries lower (entry :: upper) =
      overlayEntries (Table.put entry.1 (layered (Table.get? lower entry.1) entry.2) lower)
        upper := by
  rw [overlayEntries, overlayEntry]
  cases Table.get? lower entry.1 <;> rfl

theorem get?_overlayEntries {lower upper : Table} (h : (upper.map (·.1)).Nodup) (key : String) :
    Table.get? (overlayEntries lower upper) key =
      ((Table.get? upper key).map (layered (Table.get? lower key))).or (Table.get? lower key) := by
  induction upper generalizing lower with
  | nil => simp [overlayEntries]
  | cons entry upper ih =>
      obtain ⟨hentry, hupper⟩ := List.nodup_cons.mp h
      rw [overlayEntries_cons, ih hupper, get?_cons, get?_put]
      by_cases hkey : entry.1 = key
      · subst hkey
        simp [get?_eq_none hentry]
      · simp [hkey]

theorem isTree_overlayEntries {lower upper : Table} (hlower : IsTree allowed (.table lower))
    (hupper : ∀ entry ∈ upper, IsTree allowed entry.2 ∧
      ∀ lower, IsTree allowed lower → IsTree allowed (lower.overlay entry.2)) :
    IsTree allowed (.table (overlayEntries lower upper)) := by
  induction upper generalizing lower with
  | nil => exact hlower
  | cons entry upper ih =>
      obtain ⟨⟨hentry, hover⟩, hupper⟩ := List.forall_mem_cons.mp hupper
      rw [overlayEntries_cons]
      refine ih (hlower.put ?_) hupper
      cases hold : Table.get? lower entry.1 with
      | none => exact hentry
      | some old => exact hover old (hlower.get? hold)

theorem isTree_overlay {lower upper : Value} (hlower : IsTree allowed lower)
    (hupper : IsTree allowed upper) : IsTree allowed (lower.overlay upper) := by
  induction hupper generalizing lower with
  | scalar hs => exact .scalar hs
  | fraction written => exact .fraction written
  | list hitems _ => exact .list hitems
  | @table entries hkeys hvalues ih =>
      cases lower with
      | table entries' =>
          rw [overlay_table]
          exact isTree_overlayEntries hlower fun entry hentry =>
            ⟨hvalues entry hentry, fun lower h => ih entry hentry h⟩
      | scalar s => exact .table hkeys hvalues
      | fraction written => exact .table hkeys hvalues
      | list items => exact .table hkeys hvalues

theorem at?_overlay {lower upper : Value} (htree : IsTree allowed upper)
    (hlower : Opens path lower) (hupper : Opens path upper)
    (hend : Replaces path lower upper) :
    at? path (lower.overlay upper) = (at? path upper).or (at? path lower) ∧
      Opens path (lower.overlay upper) := by
  induction path generalizing lower upper with
  | nil => exact ⟨congrArg some (hend lower upper rfl rfl), trivial⟩
  | cons key path ih =>
      match lower, upper with
      | .table lower, .table upper =>
          obtain ⟨hkeys, -⟩ := isTree_table.mp htree
          rw [overlay_table]
          simp only [at?, Opens, Replaces, get?_overlayEntries hkeys key] at hend hlower hupper ⊢
          cases hnew : Table.get? upper key with
          | none => exact ⟨by simp, by simpa using hlower⟩
          | some new =>
              cases hold : Table.get? lower key with
              | none => exact ⟨by simp [layered], by simpa [layered] using hupper new hnew⟩
              | some old =>
                  rw [hold, hnew] at hend
                  have hinner := ih (htree.get? hnew) (hlower old hold) (hupper new hnew) hend
                  exact ⟨by simpa [layered] using hinner.1, by simpa [layered] using hinner.2⟩

/-- Of many trees over each other, the uppermost counts that has a value at the end of the path. -/
theorem at?_foldl_overlay {base : Value} {layers : List Value}
    (htree : ∀ layer ∈ layers, IsTree allowed layer)
    (hopens : ∀ layer ∈ base :: layers, Opens path layer)
    (hreplace : (base :: layers).Pairwise (Replaces path)) :
    at? path (layers.foldl overlay base) = (base :: layers).reverse.findSome? (at? path) ∧
      Opens path (layers.foldl overlay base) := by
  induction layers generalizing base with
  | nil => exact ⟨by simp, hopens base (by simp)⟩
  | cons layer layers ih =>
      obtain ⟨hbase, hlayers⟩ := List.pairwise_cons.mp hreplace
      obtain ⟨hlayer, hmore⟩ := List.pairwise_cons.mp hlayers
      obtain ⟨hat, hopen⟩ := at?_overlay (htree layer List.mem_cons_self) (hopens base (by simp))
        (hopens layer (by simp)) (hbase layer List.mem_cons_self)
      have hpairs : ∀ later ∈ layers, Replaces path (base.overlay layer) later := by
        intro later hlater old new hold hnew
        rw [hat, Option.or_eq_some_iff] at hold
        rcases hold with hold | ⟨-, hold⟩
        · exact hlayer later hlater old new hold hnew
        · exact hbase later (List.mem_cons_of_mem _ hlater) old new hold hnew
      have hrest := @ih (base.overlay layer)
        (fun later hlater => htree later (List.mem_cons_of_mem _ hlater))
        (by simpa [hopen] using fun later hlater => hopens later (by simp [hlater]))
        (List.pairwise_cons.mpr ⟨hpairs, hmore⟩)
      refine ⟨?_, hrest.2⟩
      have hpair : [layer, base].findSome? (at? path) = (at? path layer).or (at? path base) := by
        cases h : at? path layer <;> simp [h]
      rw [List.foldl_cons, hrest.1]
      simp [hat, hpair, List.findSome?_append]

end PocketCalculator.Proofs.LayeredTrees
