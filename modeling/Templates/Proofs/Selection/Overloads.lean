import Mathlib.Data.List.Induction
import Templates.Proofs.Engine.Links

/-!
# Overload sets as they are declared

Declarations that are added as overloads of each other are linked in the order in which they come,
whatever is declared and made meanwhile. So the overload set of each of them is all of them, in the
order of declaration (`Engine.Declares.overloads`).
-/

namespace Templates

/-- The declaration with its parameters marked as the engine marks them. -/
def Decl.marked (d : Decl) : Decl :=
  { d with params := d.params.zipIdx.map fun (p, i) =>
      { p with dependent := isDependent d.params i } }

theorem Decl.eq_marked {d d' : Decl} (h : d.finalize? = .ok d') : d' = d.marked := by
  unfold finalize? at h
  split at h
  · cases h
  · cases h
    rfl

namespace Engine

/-- What may come between two declarations of the set `ids`: other declarations, on their own or as
overloads of others, and whatever leaves the declarations as they are. -/
inductive Between (ids : List DeclId) (e : Engine) : Engine → Prop
  | declare (d : Decl) : Between ids e (e.declare d).2
  | overload {existing : DeclId} (d : Decl) : existing.index < e.decls.size → existing ∉ ids →
      Between ids e (e.overloadInsert existing d).2
  | keeps {e' : Engine} : e'.decls.map DeclEntry.links = e.decls.map DeclEntry.links →
      Between ids e e'

/-- The declarations `ds` have been added as one overload set, in this order, with the numbers
`ids`: the first on its own, each of the others as an overload of any of those before. -/
inductive Declares : List DeclId → List Decl → Engine → Prop
  | first {e e' : Engine} {d id} : e.Linked → e.declare d = (.ok id, e') → Declares [id] [d] e'
  | more {ids ds} {e e' : Engine} {existing d id} : Declares ids ds e → existing ∈ ids →
      e.overloadInsert existing d = (.ok id, e') → Declares (ids ++ [id]) (ds ++ [d]) e'
  | between {ids ds} {e e' : Engine} : Declares ids ds e → e.Between ids e' → Declares ids ds e'

variable {e e' : Engine} {ids : List DeclId} {ds : List Decl} {k : Nat} {d : Decl}
  {id existing : DeclId}

/-! ## Declaring -/

theorem ne_new (hlt : existing.index < e.decls.size) (hid : id = ⟨e.decls.size⟩) :
    existing ≠ id := by
  rintro rfl
  rw [hid] at hlt
  exact Nat.lt_irrefl _ hlt

theorem declare_eq_ok (h : e.declare d = (.ok id, e')) : id = ⟨e.decls.size⟩ ∧
    e' = { e with decls := e.decls.push { d.marked with } } := by
  obtain ⟨_, -, hd⟩ | ⟨_, hf, hd⟩ := e.declare_cases d <;> cases hd.symm.trans h
  exact ⟨rfl, by rw [Decl.eq_marked hf]⟩

theorem links?_of_declare (h : e.declare d = (.ok id, e')) (i : DeclId) :
    e'.links? i = if i = id then some (d.marked, none, none) else e.links? i := by
  obtain ⟨rfl, rfl⟩ := declare_eq_ok h
  rw [links?, decl?_push]
  by_cases hi : i = ⟨e.decls.size⟩
  · rw [if_pos hi, if_pos (congrArg DeclId.index hi)]
    rfl
  · rw [if_neg hi, if_neg fun h => hi (congrArg DeclId.mk h)]
    rfl

theorem overloadInsert_eq_ok (h : e.overloadInsert existing d = (.ok id, e')) :
    ∃ e₁, e.declare d = (.ok id, e₁) ∧
      e' = (e₁.modifyDecl id fun x => { x with root := some (e.rootOf existing) }).modifyDecl
        (e.lastOf existing) fun x => { x with next := some id } := by
  obtain ⟨_, _, -, ho⟩ | ⟨_, e₁, hd, ho⟩ := e.overloadInsert_cases existing d <;>
    cases ho.symm.trans h
  exact ⟨e₁, hd, rfl⟩

theorem overloadInsert_id (h : e.overloadInsert existing d = (.ok id, e')) :
    id = ⟨e.decls.size⟩ := by
  obtain ⟨_, hnew, -⟩ := overloadInsert_eq_ok h
  exact (declare_eq_ok hnew).1

theorem overloadInsert_size (h : e.overloadInsert existing d = (.ok id, e')) :
    e'.decls.size = e.decls.size + 1 := by
  obtain ⟨e₁, hnew, rfl⟩ := overloadInsert_eq_ok h
  rw [decls_modifyDecl_size, decls_modifyDecl_size]
  exact (declare_ok hnew).2

/-- The new declaration is linked to the first of the set, and the last to it. -/
theorem links?_of_overloadInsert (h : e.overloadInsert existing d = (.ok id, e'))
    (hlast : (e.lastOf existing).index < e.decls.size) (i : DeclId) :
    e'.links? i = if i = id then some (d.marked, some (e.rootOf existing), none)
      else if i = e.lastOf existing then (e.links? i).map fun (d, root, _) => (d, root, some id)
      else e.links? i := by
  obtain ⟨e₁, hnew, rfl⟩ := overloadInsert_eq_ok h
  have hne : e.lastOf existing ≠ id := ne_new hlast (declare_eq_ok hnew).1
  have hlinks := links?_of_declare hnew i
  rw [links?, decl?_modifyDecl, decl?_modifyDecl]
  unfold links? at hlinks ⊢
  by_cases hid : i = id
  · subst hid
    rw [if_neg hne, if_pos rfl, if_pos rfl, Option.map_map]
    rw [if_pos rfl] at hlinks
    obtain ⟨x, hx, hlinks⟩ := Option.map_eq_some_iff.mp hlinks
    have hdecl : x.toDecl = d.marked := congrArg Prod.fst hlinks
    have hnext : x.next = none := congrArg (·.2.2) hlinks
    rw [hx, ← hdecl, ← hnext]
    rfl
  · rw [if_neg hid] at hlinks ⊢
    rw [if_neg (Ne.symm hid), ← hlinks]
    by_cases hi : i = e.lastOf existing
    · rw [if_pos hi.symm, if_pos hi, Option.map_map, Option.map_map]
      rfl
    · rw [if_neg (Ne.symm hi), if_neg hi]

/-! ## Overload sets -/

/-- The declarations `ds` with the numbers `ids` are an overload set, in this order, and no other
declaration has a link to one of them. -/
structure Holds (e : Engine) (ids : List DeclId) (ds : List Decl) : Prop where
  linked : e.Linked
  nodup : ids.Nodup
  size : ids.length ≤ e.decls.size
  length : ds.length = ids.length
  entry {k : Nat} {id : DeclId} {d : Decl} : ids[k]? = some id → ds[k]? = some d →
    e.links? id = some (d, if k = 0 then none else ids.head?, ids[k + 1]?)
  apart : e.Closed (· ∉ ids)

namespace Holds

theorem exists_links? (H : e.Holds ids ds) (hk : ids[k]? = some id) : ∃ d, ds[k]? = some d ∧
    e.links? id = some (d, if k = 0 then none else ids.head?, ids[k + 1]?) := by
  have hlt : k < ds.length := H.length ▸ (List.getElem?_eq_some_iff.mp hk).1
  exact ⟨_, List.getElem?_eq_getElem hlt, H.entry hk (List.getElem?_eq_getElem hlt)⟩

theorem lt_size (H : e.Holds ids ds) (hid : id ∈ ids) : id.index < e.decls.size := by
  obtain ⟨k, hk⟩ := List.mem_iff_getElem?.mp hid
  obtain ⟨d, -, hlinks⟩ := H.exists_links? hk
  exact lt_of_links? hlinks

theorem new_not_mem (H : e.Holds ids ds) (hid : id = ⟨e.decls.size⟩) : id ∉ ids := fun h =>
  ne_new (H.lt_size h) hid rfl

theorem head?_eq (H : e.Holds ids ds) (hid : id ∈ ids) : ids.head? = some (e.rootOf id) := by
  obtain ⟨k, hk⟩ := List.mem_iff_getElem?.mp hid
  obtain ⟨d, -, hlinks⟩ := H.exists_links? hk
  obtain ⟨first, hfirst⟩ : ∃ first, ids.head? = some first := by
    cases ids with
    | nil => cases hid
    | cons first ids => exact ⟨first, rfl⟩
  rw [rootOf_of_links? hlinks, hfirst]
  split
  · next h => rw [h, ← List.head?_eq_getElem?, hfirst] at hk; exact hk
  · rfl

theorem overloadsFrom_eq (H : e.Holds ids ds) (n : Nat) (hk : ids[k]? = some id)
    (hn : ids.length ≤ k + n) : e.overloadsFrom n id = ids.drop k := by
  obtain ⟨hlt, rfl⟩ := List.getElem?_eq_some_iff.mp hk
  induction n generalizing k with
  | zero => omega
  | succ n ih =>
    obtain ⟨d, -, hlinks⟩ := H.exists_links? hk
    rw [overloadsFrom_of_links? hlinks, List.drop_eq_getElem_cons hlt]
    refine congrArg (ids[k] :: ·) ?_
    by_cases hnext : k + 1 < ids.length
    · have hget := List.getElem?_eq_getElem hnext
      rw [hget]
      exact ih (by omega) hnext hget
    · have hle := Nat.le_of_not_lt hnext
      rw [List.getElem?_eq_none hle, List.drop_eq_nil_of_le hle]
      rfl

theorem overloads_eq (H : e.Holds ids ds) (hid : id ∈ ids) : e.overloads id = ids := by
  have hroot := H.head?_eq hid
  rw [List.head?_eq_getElem?] at hroot
  exact H.overloadsFrom_eq e.decls.size hroot (by rw [Nat.zero_add]; exact H.size)

theorem rootOf_mem (H : e.Holds ids ds) (hid : id ∈ ids) : e.rootOf id ∈ ids :=
  List.mem_of_mem_head? (H.head?_eq hid)

theorem getLast?_eq (H : e.Holds ids ds) (hid : id ∈ ids) :
    ids.getLast? = some (e.lastOf id) := by
  rw [lastOf, H.overloads_eq (H.rootOf_mem hid)]
  cases h : ids.getLast? with
  | none => rw [List.getLast?_eq_none_iff.mp h] at hid; cases hid
  | some last => rfl

theorem decls_eq (H : e.Holds ids ds) : ids.map e.decl = ds := by
  refine List.ext_getElem? fun k => ?_
  rw [List.getElem?_map]
  cases hk : ids[k]? with
  | none => rw [List.getElem?_eq_none (H.length ▸ List.getElem?_eq_none_iff.mp hk)]; rfl
  | some id =>
    obtain ⟨d, hd, hlinks⟩ := H.exists_links? hk
    rw [hd, Option.map_some, decl_of_links? hlinks]

/-- Nothing changes for the set if its declarations keep their links and the new ones have no link
to it. -/
theorem mono (H : e.Holds ids ds) (hlinked : e'.Linked) (hsize : e.decls.size ≤ e'.decls.size)
    (hlinks : ∀ id ∈ ids, e'.links? id = e.links? id) (hapart : e'.Closed (· ∉ ids)) :
    e'.Holds ids ds where
  linked := hlinked
  nodup := H.nodup
  size := H.size.trans hsize
  length := H.length
  entry hk hd := (hlinks _ (List.mem_of_getElem? hk)).trans (H.entry hk hd)
  apart := hapart

theorem keeps (H : e.Holds ids ds)
    (h : e'.decls.map DeclEntry.links = e.decls.map DeclEntry.links) : e'.Holds ids ds := by
  have hsame : e.SameLinks e' := h
  exact H.mono (hsame.linked H.linked) hsame.size.ge (fun i _ => hsame.links? i)
    (hsame.closed H.apart)

theorem declare_other (H : e.Holds ids ds) (d : Decl) : (e.declare d).2.Holds ids ds := by
  have hquiet := declare_quiet e d
  rcases hnew : e.declare d with ⟨err | id, e'⟩ <;> rw [hnew] at hquiet
  · exact H.keeps (congrArg (·.map DeclEntry.links) (decls_of_declare_error hnew))
  · have hlinks := links?_of_declare hnew
    have hid := H.new_not_mem (declare_eq_ok hnew).1
    refine H.mono (hquiet.linked H.linked) hquiet.decls (fun i hi => ?_) fun i d r n hi h => ?_
    · rw [hlinks, if_neg (ne_of_mem_of_not_mem hi hid)]
    · rw [hlinks] at h
      split at h
      · cases h
        exact ⟨fun _ h => (by cases h), fun _ h => (by cases h)⟩
      · exact H.apart hi h

theorem overload_other (H : e.Holds ids ds) (d : Decl) (hlt : existing.index < e.decls.size)
    (hmem : existing ∉ ids) : (e.overloadInsert existing d).2.Holds ids ds := by
  have hquiet := overloadInsert_quiet H.linked hlt d
  have hlinked := hquiet.linked H.linked
  rcases hnew : e.overloadInsert existing d with ⟨err | id, e'⟩ <;> rw [hnew] at hquiet hlinked
  · exact H.keeps (congrArg (·.map DeclEntry.links) (decls_of_overloadInsert_error hnew))
  · have hlinks := links?_of_overloadInsert hnew ((linked_iff_closed.mp H.linked).lastOf hlt)
    have hid := H.new_not_mem (overloadInsert_id hnew)
    have hlast := H.apart.lastOf hmem
    refine H.mono hlinked hquiet.decls (fun i hi => ?_) fun i d r n hi h => ?_
    · rw [hlinks, if_neg (ne_of_mem_of_not_mem hi hid), if_neg (ne_of_mem_of_not_mem hi hlast)]
    · rw [hlinks] at h
      by_cases hi' : i = id
      · rw [if_pos hi'] at h
        cases h
        exact ⟨fun r hr => Option.some.inj hr ▸ H.apart.rootOf hmem, fun _ h => (by cases h)⟩
      rw [if_neg hi'] at h
      by_cases hl : i = e.lastOf existing
      · rw [if_pos hl] at h
        obtain ⟨⟨d', r', n'⟩, hold, heq⟩ := Option.map_eq_some_iff.mp h
        cases heq
        exact ⟨(H.apart hi hold).1, fun n hn => Option.some.inj hn ▸ hid⟩
      · rw [if_neg hl] at h
        exact H.apart hi h

/-- A declaration that is added to the set comes last. -/
theorem overloadInsert (H : e.Holds ids ds) (hmem : existing ∈ ids)
    (h : e.overloadInsert existing d = (.ok id, e')) :
    e'.Holds (ids ++ [id]) (ds ++ [d.marked]) := by
  have hlt := H.lt_size hmem
  have hquiet := overloadInsert_quiet H.linked hlt d
  rw [h] at hquiet
  have hclosed := linked_iff_closed.mp H.linked
  have hlinks := links?_of_overloadInsert h (hclosed.lastOf hlt)
  have hid := H.new_not_mem (overloadInsert_id h)
  have hhead := H.head?_eq hmem
  have hlast := H.getLast?_eq hmem
  have hsize : e'.decls.size = e.decls.size + 1 := overloadInsert_size h
  refine ⟨hquiet.linked H.linked, ?_, ?_, ?_, fun {k i d'} hk hd => ?_, fun i d' r n hi hd' => ?_⟩
  · rw [List.nodup_append]
    exact ⟨H.nodup, List.pairwise_singleton _ id, fun i hi j hj heq =>
      hid (List.mem_singleton.mp hj ▸ heq ▸ hi)⟩
  · rw [List.length_append, hsize]
    exact Nat.succ_le_succ H.size
  · rw [List.length_append, List.length_append, H.length]
    rfl
  · rw [hlinks]
    have hhead' : (ids ++ [id]).head? = some (e.rootOf existing) := by
      rw [List.head?_append, hhead]
      rfl
    obtain hkl | rfl | hkl := Nat.lt_trichotomy k ids.length
    · rw [List.getElem?_append_left hkl] at hk
      rw [List.getElem?_append_left (H.length ▸ hkl)] at hd
      have hi := List.mem_of_getElem? hk
      rw [if_neg (ne_of_mem_of_not_mem hi hid), H.entry hk hd, hhead', hhead]
      rw [List.getLast?_eq_getElem?] at hlast
      by_cases hl : i = e.lastOf existing
      · -- The last one so far gets a link to the new one.
        have hk' : k + 1 = ids.length := by
          have heq := (List.getElem?_inj hkl H.nodup).mp (hk.trans (hl ▸ hlast.symm))
          omega
        rw [if_pos hl, hk', List.getElem?_concat_length]
        rfl
      · have hk' : k + 1 < ids.length := by
          refine Nat.lt_of_le_of_ne hkl fun heq => hl ?_
          rw [← heq, Nat.add_sub_cancel, hk] at hlast
          exact Option.some.inj hlast
        rw [if_neg hl, List.getElem?_append_left hk']
    · rw [List.getElem?_concat_length] at hk
      rw [← H.length, List.getElem?_concat_length] at hd
      cases hk
      cases hd
      rw [if_pos rfl, hhead', if_neg (List.length_pos_of_mem hmem).ne',
        List.getElem?_eq_none (by rw [List.length_append]; rfl)]
    · rw [List.getElem?_eq_none (by rw [List.length_append]; exact hkl)] at hk
      cases hk
  · have hi' : i ∉ ids := fun h => hi (List.mem_append_left _ h)
    have hne : i ≠ id := fun heq => hi (heq ▸ List.mem_append_right ids List.mem_cons_self)
    have hne' : i ≠ e.lastOf existing := fun heq => hi' (heq ▸ List.mem_of_getLast? hlast)
    have hfresh {j : DeclId} (hj : j ∉ ids) (hlt : j.index < e.decls.size) : j ∉ ids ++ [id] :=
      List.not_mem_append hj (mt List.mem_singleton.mp (ne_new hlt (overloadInsert_id h)))
    rw [hlinks, if_neg hne, if_neg hne'] at hd'
    obtain ⟨hroot, hnext⟩ := H.apart hi' hd'
    obtain ⟨hroot', hnext'⟩ := hclosed (lt_of_links? hd') hd'
    exact ⟨fun r hr => hfresh (hroot r hr) (hroot' r hr), fun n hn =>
      hfresh (hnext n hn) (hnext' n hn)⟩

end Holds

theorem declare_holds (hlinked : e.Linked) (h : e.declare d = (.ok id, e')) :
    e'.Holds [id] [d.marked] := by
  have hquiet := declare_quiet e d
  rw [h] at hquiet
  have hlinks := links?_of_declare h
  refine ⟨hquiet.linked hlinked, List.pairwise_singleton _ id, ?_, rfl, fun {k i d'} hk hd => ?_,
    fun i d' r n hi hd' => ?_⟩
  · rw [(declare_ok h).2]
    exact Nat.succ_le_succ (Nat.zero_le _)
  · cases k with
    | zero =>
      cases hk
      cases hd
      rw [hlinks, if_pos rfl]
      rfl
    | succ k => cases hk
  · rw [hlinks, if_neg (mt List.mem_singleton.mpr hi)] at hd'
    have hfresh {j : DeclId} (hlt : j.index < e.decls.size) : j ∉ [id] :=
      mt List.mem_singleton.mp (ne_new hlt (declare_eq_ok h).1)
    obtain ⟨hroot, hnext⟩ := linked_iff_closed.mp hlinked (lt_of_links? hd') hd'
    exact ⟨fun r hr => hfresh (hroot r hr), fun n hn => hfresh (hnext n hn)⟩

theorem Declares.holds (h : Declares ids ds e) : e.Holds ids (ds.map Decl.marked) := by
  induction h with
  | first hlinked h => exact declare_holds hlinked h
  | more _ hmem h ih =>
    rw [List.map_append]
    exact ih.overloadInsert hmem h
  | between _ h ih =>
    cases h with
    | declare d => exact ih.declare_other d
    | overload d hlt hmem => exact ih.overload_other d hlt hmem
    | keeps h => exact ih.keeps h

/-- The overload set of any of the declarations is all of them, in the order of declaration. -/
theorem Declares.overloads (h : Declares ids ds e) (hid : id ∈ ids) :
    (e.overloads id).map e.decl = ds.map Decl.marked := by
  rw [h.holds.overloads_eq hid]
  exact h.holds.decls_eq

/-- The engine with the declarations added as one overload set. -/
def withSet (e : Engine) : List Decl → Engine
  | [] => e
  | d :: ds => ds.foldl (fun e' d => (e'.overloadInsert ⟨e.decls.size⟩ d).2) (e.declare d).2

/-- The numbers of the next `n` declarations. -/
def fresh (e : Engine) (n : Nat) : List DeclId := (List.range' e.decls.size n).map DeclId.mk

theorem declare_of_paramsError? (h : Decl.paramsError? d.params = none) :
    e.declare d = (.ok ⟨e.decls.size⟩, (e.declare d).2) := by
  rw [declare, Decl.finalize?, h]

theorem overloadInsert_of_paramsError? (h : Decl.paramsError? d.params = none) (existing : DeclId) :
    e.overloadInsert existing d = (.ok ⟨e.decls.size⟩, (e.overloadInsert existing d).2) := by
  rw [overloadInsert, declare_of_paramsError? h]

theorem withSet_size (hds : ∀ x ∈ d :: ds, Decl.paramsError? x.params = none) :
    (e.withSet (d :: ds)).decls.size = e.decls.size + (ds.length + 1) := by
  induction ds using List.reverseRecOn with
  | nil => exact (declare_ok (declare_of_paramsError? (hds d List.mem_cons_self))).2
  | append_singleton ds x ih =>
    have hsize := ih fun y hy => hds y (List.mem_append_left [x] hy)
    have hx : Decl.paramsError? x.params = none := hds x (by simp)
    rw [withSet, List.foldl_append, List.length_append]
    refine (overloadInsert_size (overloadInsert_of_paramsError? hx _)).trans ?_
    exact congrArg Nat.succ hsize

/-- Declarations with acceptable parameter lists can be declared as one set. -/
theorem declares_withSet (d : Decl) (ds : List Decl) (hlinked : e.Linked)
    (hds : ∀ x ∈ d :: ds, Decl.paramsError? x.params = none) :
    Declares (e.fresh (ds.length + 1)) (d :: ds) (e.withSet (d :: ds)) := by
  induction ds using List.reverseRecOn with
  | nil => exact .first hlinked (declare_of_paramsError? (hds d List.mem_cons_self))
  | append_singleton ds x ih =>
    have hinit : ∀ y ∈ d :: ds, Decl.paramsError? y.params = none := fun y hy =>
      hds y (List.mem_append_left [x] hy)
    have hx : Decl.paramsError? x.params = none := hds x (by simp)
    have hfirst : ⟨e.decls.size⟩ ∈ e.fresh (ds.length + 1) := List.mem_cons_self
    have hfresh : e.fresh ((ds ++ [x]).length + 1) =
        e.fresh (ds.length + 1) ++ [⟨(e.withSet (d :: ds)).decls.size⟩] := by
      rw [withSet_size hinit, List.length_append, fresh, List.length_singleton,
        List.range'_1_concat, List.map_append]
      rfl
    rw [withSet, List.foldl_append, hfresh]
    exact .more (ih hinit) hfirst (overloadInsert_of_paramsError? hx _)

end Engine
end Templates
