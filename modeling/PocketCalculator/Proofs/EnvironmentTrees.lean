import PocketCalculator.Proofs.LayeredTrees

namespace PocketCalculator.Proofs.EnvironmentTrees

open PocketCalculator.Settings
open PocketCalculator.Settings.Environment
open PocketCalculator.Proofs.LayeredTrees

theorem isTree_plain (cs : List Char) : IsTree IsFull (plain cs) := by
  unfold plain
  split
  · exact .fraction _
  · split
    · exact isTree_integer _
    · exact isTree_text _

mutual

theorem isTree_envValue {fuel : Nat} {cs rest : List Char} {v : Value}
    (h : value? fuel cs = some (v, rest)) : IsTree IsFull v := by
  cases fuel with
  | zero => cases h
  | succ fuel =>
      rw [value?] at h
      obtain ⟨⟨found, after⟩, hfound, ⟨⟩⟩ := Option.map_eq_some_iff.mp h
      split at hfound
      · cases hfound
        exact isTree_truth true
      · cases hfound
        exact isTree_truth false
      · obtain ⟨⟨entries, after⟩, hentries, ⟨⟩⟩ := Option.map_eq_some_iff.mp hfound
        exact isTree_envMembers hentries isTree_nil
      · obtain ⟨⟨vs, after⟩, hitems, ⟨⟩⟩ := Option.map_eq_some_iff.mp hfound
        exact .list (isTree_envItems hitems)
      · obtain ⟨⟨s, after⟩, -, ⟨⟩⟩ := Option.map_eq_some_iff.mp hfound
        exact isTree_text _
      · split at hfound
        · cases hfound
          exact isTree_text _
        · cases hfound
      · cases hfound
        exact isTree_plain _

theorem isTree_envItems {fuel : Nat} {cs rest : List Char} {vs : List Value}
    (h : items? fuel cs = some (vs, rest)) : ∀ v ∈ vs, IsTree IsFull v := by
  cases fuel with
  | zero => cases h
  | succ fuel =>
      unfold items? at h
      split at h
      · cases h
        exact List.forall_mem_nil _
      · split at h
        · next hv =>
            obtain ⟨⟨vs, after⟩, hvs, ⟨⟩⟩ := Option.map_eq_some_iff.mp h
            exact List.forall_mem_cons.mpr ⟨isTree_envValue hv, isTree_envItems hvs⟩
        · next hv =>
            cases h
            exact List.forall_mem_singleton.mpr (isTree_envValue hv)
        · cases h

theorem isTree_envMembers {fuel : Nat} {entries entries' : Table} {cs rest : List Char}
    (h : members? fuel entries cs = some (entries', rest))
    (hentries : IsTree IsFull (.table entries)) : IsTree IsFull (.table entries') := by
  cases fuel with
  | zero => cases h
  | succ fuel =>
      unfold members? at h
      split at h
      · cases h
        exact hentries
      · split at h
        · cases h
        · split at h
          · split at h
            · next hv => exact isTree_envMembers h (hentries.put (isTree_envValue hv))
            · next hv =>
                cases h
                exact hentries.put (isTree_envValue hv)
            · cases h
          · cases h

end

theorem isTree_readValue (text : String) : IsTree IsFull (readValue text) := by
  unfold readValue
  split
  · next hvalue => exact isTree_envValue hvalue
  · exact isTree_text _

theorem isTree_nest {v : Value} (path : List String) (h : IsTree IsFull v) :
    IsTree IsFull (nest path v) := by
  induction path with
  | nil => exact h
  | cons key path ih => exact isTree_entry ih

theorem isTree_environment (environment : List (String × String)) :
    IsTree IsFull (Environment.read environment) := by
  rw [Environment.read]
  refine List.foldlRecOn environment _ isTree_nil ?_
  rintro tree htree ⟨name, text⟩ -
  dsimp only
  split
  · exact htree
  · exact isTree_overlay htree (isTree_nest _ (isTree_readValue text))

end PocketCalculator.Proofs.EnvironmentTrees
