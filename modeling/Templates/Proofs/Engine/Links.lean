import Templates.Proofs.Engine.Quiet

/-!
# Links between overloads

Every declaration of the engine has a link to the first of its overload set and one to the next.
What is closed under these links holds along the whole set (`Engine.Closed.overloadsFrom`).
-/

namespace Templates

/-- A declaration of the engine without its instances: the declaration, the first of its overload
set, and the next. -/
def DeclEntry.links (x : DeclEntry) : Decl × Option DeclId × Option DeclId :=
  (x.toDecl, x.root, x.next)

namespace Engine

def links? (e : Engine) (id : DeclId) : Option (Decl × Option DeclId × Option DeclId) :=
  (e.decl? id).map DeclEntry.links

/-- The engines have the same declarations with the same links. -/
def SameLinks (e e' : Engine) : Prop := e'.decls.map DeclEntry.links = e.decls.map DeclEntry.links

/-- The links do not lead out of `P`. -/
def Closed (e : Engine) (P : DeclId → Prop) : Prop :=
  ∀ ⦃id d root next⦄, P id → e.links? id = some (d, root, next) →
    (∀ r ∈ root, P r) ∧ ∀ n ∈ next, P n

variable {e e' e'' : Engine} {P : DeclId → Prop} {d : Decl} {id existing : DeclId}
  {root next : Option DeclId}

theorem lt_of_links? (h : e.links? id = some (d, root, next)) : id.index < e.decls.size :=
  let ⟨x, hx, _⟩ := Option.map_eq_some_iff.mp h
  decl?_eq_some_iff.mp ⟨x, hx⟩

theorem rootOf_of_links? (h : e.links? id = some (d, root, next)) : e.rootOf id = root.getD id := by
  obtain ⟨x, hx, hlinks⟩ := Option.map_eq_some_iff.mp h
  cases hlinks
  rw [rootOf, hx]
  rfl

theorem decl_of_links? (h : e.links? id = some (d, root, next)) : e.decl id = d := by
  obtain ⟨x, hx, hlinks⟩ := Option.map_eq_some_iff.mp h
  cases hlinks
  rw [Engine.decl, hx]
  rfl

theorem overloadsFrom_of_links? (h : e.links? id = some (d, root, next)) (n : Nat) :
    e.overloadsFrom (n + 1) id = id :: (next.map (e.overloadsFrom n)).getD [] := by
  obtain ⟨x, hx, hlinks⟩ := Option.map_eq_some_iff.mp h
  cases hlinks
  rw [overloadsFrom, hx, Option.bind_some]
  cases x.next <;> rfl

theorem overloadsFrom_congr (h : e'.decls = e.decls) (n : Nat) (id : DeclId) :
    e'.overloadsFrom n id = e.overloadsFrom n id := by
  induction n generalizing id with
  | zero => rfl
  | succ n ih => simp only [overloadsFrom, decl?, h, ih]

theorem overloads_congr (h : e'.decls = e.decls) (id : DeclId) :
    e'.overloads id = e.overloads id := by
  have hroot : e'.rootOf id = e.rootOf id := by
    unfold rootOf decl?
    rw [h]
  rw [overloads, overloads, hroot, h, overloadsFrom_congr h]

theorem linked_iff_closed : e.Linked ↔ e.Closed (·.index < e.decls.size) := by
  constructor
  · intro H id d root next _ h
    obtain ⟨x, hx, hlinks⟩ := Option.map_eq_some_iff.mp h
    cases hlinks
    exact ⟨fun r hr => H.root hx hr, fun n hn => H.next hx hn⟩
  · intro H
    have hlinks {id : DeclId} {x : DeclEntry} (hx : e.decl? id = some x) :=
      H (decl?_eq_some_iff.mp ⟨x, hx⟩) (congrArg (Option.map DeclEntry.links) hx)
    exact ⟨fun hx hn => (hlinks hx).2 _ hn, fun hx hr => (hlinks hx).1 _ hr⟩

namespace Closed

theorem rootOf (H : e.Closed P) (hid : P id) : P (e.rootOf id) := by
  cases h : e.links? id with
  | none =>
    rw [Engine.rootOf, Option.map_eq_none_iff.mp h]
    exact hid
  | some links =>
    obtain ⟨d, root, next⟩ := links
    rw [rootOf_of_links? h]
    cases root with
    | none => exact hid
    | some r => exact (H hid h).1 r rfl

theorem overloadsFrom (H : e.Closed P) (hid : P id) (n : Nat) :
    ∀ x ∈ e.overloadsFrom n id, P x := by
  induction n generalizing id with
  | zero => exact List.forall_mem_nil P
  | succ n ih =>
    cases h : e.links? id with
    | none =>
      rw [Engine.overloadsFrom, Option.map_eq_none_iff.mp h]
      exact List.forall_mem_singleton.mpr hid
    | some links =>
      obtain ⟨d, root, next⟩ := links
      rw [overloadsFrom_of_links? h]
      refine List.forall_mem_cons.mpr ⟨hid, ?_⟩
      cases next with
      | none => exact List.forall_mem_nil P
      | some n => exact ih ((H hid h).2 n rfl)

theorem lastOf (H : e.Closed P) (hid : P existing) : P (e.lastOf existing) := by
  have hroot := H.rootOf hid
  unfold Engine.lastOf
  cases h : (e.overloads (e.rootOf existing)).getLast? with
  | none => exact hroot
  | some x => exact H.overloadsFrom (H.rootOf hroot) _ x (List.mem_of_getLast? h)

end Closed

namespace SameLinks

@[refl] theorem refl (e : Engine) : e.SameLinks e := rfl

@[trans] theorem trans (h : e.SameLinks e') (h' : e'.SameLinks e'') : e.SameLinks e'' :=
  Eq.trans h' h

theorem of_decls (h : e'.decls = e.decls) : e.SameLinks e' :=
  congrArg (Array.map DeclEntry.links) h

theorem modifyDecl {f : DeclEntry → DeclEntry} (hf : ∀ x, (f x).links = x.links) :
    e.SameLinks (e.modifyDecl id f) := by
  refine Array.ext_getElem? fun k => ?_
  rw [Engine.modifyDecl, Array.getElem?_map, Array.getElem?_map, Array.getElem?_modify]
  split
  · rw [Option.map_map]
    exact congrArg (Option.map · _) (funext hf)
  · rfl

theorem links? (h : e.SameLinks e') (id : DeclId) : e'.links? id = e.links? id := by
  rw [Engine.links?, decl?, ← Array.getElem?_map, h, Array.getElem?_map]
  rfl

theorem size (h : e.SameLinks e') : e'.decls.size = e.decls.size := by
  rw [← Array.size_map, h, Array.size_map]

theorem closed (h : e.SameLinks e') (H : e.Closed P) : e'.Closed P := fun id _ _ _ hid hlinks =>
  H hid ((h.links? id).symm.trans hlinks)

theorem linked (h : e.SameLinks e') (H : e.Linked) : e'.Linked := by
  rw [linked_iff_closed, h.size]
  exact h.closed (linked_iff_closed.mp H)

end SameLinks

end Engine
end Templates
