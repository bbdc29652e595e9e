import PocketCalculator.Proofs.LayeredTrees

namespace PocketCalculator.Proofs.YamlTrees

open PocketCalculator.Settings
open PocketCalculator.Settings.Yaml
open PocketCalculator.Proofs.LayeredTrees

def IsAny (_ : Scalar) : Prop := True

theorem isTree_scalar (s : Scalar) : IsTree IsAny (.scalar s) := .scalar trivial

theorem isTree_resolve (cs : List Char) : IsTree IsAny (resolve cs) := by
  unfold resolve
  dsimp only
  split
  · exact isTree_scalar _
  · split
    · exact isTree_scalar _
    · split
      · exact isTree_scalar _
      · split
        · exact .fraction _
        · exact isTree_scalar _

theorem isTree_yamlScalar {flow : Bool} {indent : Nat} {cursor next : Cursor} {text : List Char}
    {v : Value} (h : scalar? flow indent cursor = some (text, v, next)) : IsTree IsAny v := by
  unfold scalar? at h
  split at h
  · cases h
    exact isTree_scalar _
  · split at h
    · obtain ⟨-, h⟩ := Option.ite_none_left_eq_some.mp h
      cases h
      exact isTree_resolve _
    · cases h

mutual

theorem isTree_flowNode {fuel : Nat} {cursor next : Cursor} {key : Option String} {v : Value}
    (h : flowNode? fuel cursor = some (key, v, next)) : IsTree IsAny v := by
  cases fuel with
  | zero => cases h
  | succ fuel =>
      unfold flowNode? at h
      split at h
      · obtain ⟨⟨vs, after⟩, hitems, ⟨⟩⟩ := Option.map_eq_some_iff.mp h
        exact .list (isTree_flowItems hitems)
      · obtain ⟨⟨entries, after⟩, hentries, ⟨⟩⟩ := Option.map_eq_some_iff.mp h
        exact isTree_flowMembers isTree_nil hentries
      · obtain ⟨⟨text, found, after⟩, hfound, ⟨⟩⟩ := Option.map_eq_some_iff.mp h
        exact isTree_yamlScalar hfound

theorem isTree_flowValue {fuel : Nat} {cursor next : Cursor} {v : Value}
    (h : flowValue? fuel cursor = some (v, next)) : IsTree IsAny v := by
  cases fuel with
  | zero => cases h
  | succ fuel =>
      unfold flowValue? at h
      split at h
      · cases h
        exact isTree_scalar _
      · cases h
        exact isTree_scalar _
      · cases h
        exact isTree_scalar _
      · obtain ⟨⟨key, found, after⟩, hfound, ⟨⟩⟩ := Option.map_eq_some_iff.mp h
        exact isTree_flowNode hfound

theorem isTree_flowItems {fuel : Nat} {cursor next : Cursor} {vs : List Value}
    (h : flowItems? fuel cursor = some (vs, next)) : ∀ v ∈ vs, IsTree IsAny v := by
  cases fuel with
  | zero => cases h
  | succ fuel =>
      unfold flowItems? at h
      split at h
      · cases h
        exact List.forall_mem_nil _
      · split at h
        · cases h
        · next hnode =>
            dsimp only at h
            split at h
            · cases h
            · next v after hitem =>
                have hv : IsTree IsAny v := by
                  split at hitem
                  · obtain ⟨⟨found, after⟩, hfound, ⟨⟩⟩ := Option.map_eq_some_iff.mp hitem
                    exact isTree_entry (isTree_flowValue hfound)
                  · cases hitem
                    exact isTree_flowNode hnode
                split at h
                · obtain ⟨⟨vs, after⟩, hvs, ⟨⟩⟩ := Option.map_eq_some_iff.mp h
                  exact List.forall_mem_cons.mpr ⟨hv, isTree_flowItems hvs⟩
                · cases h
                  exact List.forall_mem_singleton.mpr hv
                · cases h

theorem isTree_flowMembers {fuel : Nat} {entries entries' : Table} {cursor next : Cursor}
    (hentries : IsTree IsAny (.table entries))
    (h : flowMembers? fuel entries cursor = some (entries', next)) :
    IsTree IsAny (.table entries') := by
  cases fuel with
  | zero => cases h
  | succ fuel =>
      unfold flowMembers? at h
      split at h
      · cases h
        exact hentries
      · split at h
        · dsimp only at h
          split at h
          · cases h
          · next v after hmember =>
              have hv : IsTree IsAny v := by
                split at hmember
                · exact isTree_flowValue hmember
                · cases hmember
                  exact isTree_scalar _
              split at h
              · exact isTree_flowMembers (hentries.put hv) h
              · cases h
                exact hentries.put hv
              · cases h
        · cases h

end

mutual

theorem isTree_node {fuel indent : Nat} {block : Bool} {cursor next : Cursor} {v : Value}
    (h : node? fuel block indent cursor = some (v, next)) : IsTree IsAny v := by
  cases fuel with
  | zero => rw [node?] at h; cases h
  | succ fuel =>
      unfold node? at h
      split at h
      · obtain ⟨⟨vs, after⟩, hitems, ⟨⟩⟩ := Option.map_eq_some_iff.mp h
        exact .list (isTree_blockItems hitems)
      · split at h
        · obtain ⟨⟨entries, after⟩, hentries, ⟨⟩⟩ := Option.map_eq_some_iff.mp h
          exact isTree_blockMembers isTree_nil hentries
        · obtain ⟨⟨found, after⟩, hfound, ⟨⟩⟩ := Option.map_eq_some_iff.mp h
          split at hfound
          · obtain ⟨⟨s, after⟩, -, ⟨⟩⟩ := Option.map_eq_some_iff.mp hfound
            exact isTree_scalar _
          · obtain ⟨⟨s, after⟩, -, ⟨⟩⟩ := Option.map_eq_some_iff.mp hfound
            exact isTree_scalar _
          · obtain ⟨⟨key, found, after⟩, hnode, ⟨⟩⟩ := Option.map_eq_some_iff.mp hfound
            exact isTree_flowNode hnode
          · obtain ⟨⟨key, found, after⟩, hnode, ⟨⟩⟩ := Option.map_eq_some_iff.mp hfound
            exact isTree_flowNode hnode
          · obtain ⟨⟨text, found, after⟩, hscalar, ⟨⟩⟩ := Option.map_eq_some_iff.mp hfound
            exact isTree_yamlScalar hscalar

theorem isTree_wholeNode {fuel indent : Nat} {block : Bool} {cursor next : Cursor} {v : Value}
    (h : wholeNode? fuel block indent cursor = some (v, next)) : IsTree IsAny v := by
  cases fuel with
  | zero => rw [wholeNode?] at h; cases h
  | succ fuel =>
      unfold wholeNode? at h
      split at h
      · next hnode =>
          split at h
          · cases h
            exact isTree_node hnode
          · cases h
      · cases h

theorem isTree_blockItems {fuel column : Nat} {cursor next : Cursor} {vs : List Value}
    (h : items? fuel column cursor = some (vs, next)) : ∀ v ∈ vs, IsTree IsAny v := by
  cases fuel with
  | zero => rw [items?] at h; cases h
  | succ fuel =>
      unfold items? at h
      dsimp only at h
      split at h
      · cases h
      · next v after hitem =>
          have hv : IsTree IsAny v := by
            split at hitem
            · cases hitem
              exact isTree_scalar _
            · exact isTree_wholeNode hitem
          split at h
          · cases h
            exact List.forall_mem_singleton.mpr hv
          · split at h
            · split at h
              · obtain ⟨⟨vs, after⟩, hvs, ⟨⟩⟩ := Option.map_eq_some_iff.mp h
                exact List.forall_mem_cons.mpr ⟨hv, isTree_blockItems hvs⟩
              · cases h
                exact List.forall_mem_singleton.mpr hv
            · cases h

theorem isTree_blockMembers {fuel column : Nat} {entries entries' : Table} {cursor next : Cursor}
    (hentries : IsTree IsAny (.table entries))
    (h : members? fuel column entries cursor = some (entries', next)) :
    IsTree IsAny (.table entries') := by
  cases fuel with
  | zero => rw [members?] at h; cases h
  | succ fuel =>
      unfold members? at h
      split at h
      · cases h
      · dsimp only at h
        split at h
        · cases h
        · next v after hmember =>
            have hv : IsTree IsAny v := by
              split at hmember
              · cases hmember
                exact isTree_scalar _
              · split at hmember
                · split at hmember
                  · obtain ⟨⟨vs, after⟩, hitems, ⟨⟩⟩ := Option.map_eq_some_iff.mp hmember
                    exact .list (isTree_blockItems hitems)
                  · cases hmember
                    exact isTree_scalar _
                · exact isTree_wholeNode hmember
            split at h
            · cases h
              exact hentries.put hv
            · split at h
              · exact isTree_blockMembers (hentries.put hv) h
              · cases h

end

theorem isTree_document {block : Bool} {cursor : Cursor} {v : Value}
    (h : document? block cursor = some v) : IsTree IsAny v := by
  unfold document? at h
  split at h
  · cases h
    exact isTree_nil
  · split at h
    · next hnode =>
        split at h
        · cases h
          exact isTree_wholeNode hnode
        · cases h
    · cases h

theorem isTree_yaml {text : String} {v : Value} (h : Yaml.read text = some v) :
    IsTree IsAny v := by
  unfold Yaml.read at h
  dsimp only at h
  split at h
  · next hroot =>
      cases h
      obtain ⟨-, hroot⟩ := Option.ite_none_left_eq_some.mp hroot
      split_ifs at hroot
      · exact isTree_document hroot
      · exact isTree_document hroot
  · cases h

end PocketCalculator.Proofs.YamlTrees
