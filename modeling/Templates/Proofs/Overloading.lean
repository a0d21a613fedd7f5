import Mathlib.Logic.Relation
import Templates.Proofs.Overloading.Frames

/-!
# Overload sets as lists

The commands of a run make the overload sets, whatever else goes on between them: a declaration is a
set of its own, and one that is added to another comes last in its set (`Service.overloadSets`). The
engine keeps them by links, from each declaration to the next and to the first, and the links are
those of the sets at every moment (`Service.listsOverloads`).
-/

namespace Templates

variable {σ α : Type}

/-- Overload sets, each in the order of declaration. -/
abbrev OverloadSets := List (List DeclId)

namespace OverloadSets

/-- The declaration `id` comes last in the set of `existing`. -/
def add (sets : OverloadSets) (existing id : DeclId) : OverloadSets :=
  sets.map fun s => if existing ∈ s then s ++ [id] else s

variable {sets : OverloadSets} {s : List DeclId} {existing id i : DeclId}

theorem mem_extended :
    i ∈ (if existing ∈ s then s ++ [id] else s) ↔ i ∈ s ∨ i = id ∧ existing ∈ s := by
  split
  · next h => simp [h]
  · next h => simp [h]

theorem mem_flatten_add :
    i ∈ (sets.add existing id).flatten ↔
      i ∈ sets.flatten ∨ i = id ∧ existing ∈ sets.flatten := by
  rw [add, ← List.flatMap_def, List.mem_flatMap]
  simp only [mem_extended, and_or_left, exists_or, List.mem_flatten]
  refine or_congr_right ⟨fun ⟨s, hs, hi, hmem⟩ => ⟨hi, s, hs, hmem⟩, fun ⟨hi, s, hs, hmem⟩ => ?_⟩
  exact ⟨s, hs, hi, hmem⟩

/-- Sets that have nothing in common do not get it by a new declaration. -/
theorem disjoint_add (h : sets.Pairwise List.Disjoint) (hid : id ∉ sets.flatten) :
    (sets.add existing id).Pairwise List.Disjoint := by
  rw [add, List.pairwise_map]
  refine h.imp_of_mem fun {s t} hs ht hst i hi hi' => ?_
  have hnot {u : List DeclId} (hu : u ∈ sets) (hmem : i ∈ u) : i ≠ id := fun heq =>
    hid (List.mem_flatten.mpr ⟨u, hu, heq ▸ hmem⟩)
  obtain hi | ⟨heq, hmem⟩ := mem_extended.mp hi
  · obtain hi' | ⟨heq, -⟩ := mem_extended.mp hi'
    · exact hst hi hi'
    · exact hnot hs hi heq
  · obtain hi' | ⟨-, hmem'⟩ := mem_extended.mp hi'
    · exact hnot ht hi' heq
    · exact hst hmem hmem'

end OverloadSets

/-- The sets after a command with its reply. What is rejected is not declared. -/
def Command.sets (sets : OverloadSets) : (c : Command) → c.Reply → OverloadSets
  | .declare _, .ok id => sets ++ [[id]]
  | .overload existing _, .ok id => sets.add existing id
  | _, _ => sets

/-- The sets after the next step. -/
def Machine.sets (m : Machine σ α) (sets : OverloadSets) : OverloadSets :=
  match m.control with
  | .program _ (.command c _) =>
    match c.danglingIn m.engine with
    | some _ => sets
    | none => c.sets sets (c.run m.engine).1
  | _ => sets

/-- The sets that the commands have made when the run from `m₀` has made some steps. -/
def Service.overloadSets (svc : Service σ) (m₀ : Machine σ α) : Nat → OverloadSets
  | 0 => []
  | n + 1 => (svc.after n m₀).sets (svc.overloadSets m₀ n)

namespace Engine

/-- The declaration that `d` is linked to. -/
def next? (e : Engine) (d : DeclId) : Option DeclId := (e.decl? d).bind (·.next)

/-- The engine has the overload sets. -/
structure Groups (e : Engine) (sets : OverloadSets) : Prop where
  linked : e.Linked
  holds : ∀ s ∈ sets, ∃ ds, e.Holds s ds
  mem_flatten {id : DeclId} : id ∈ sets.flatten ↔ id.index < e.decls.size
  disjoint : sets.Pairwise List.Disjoint
  ordered : ∀ s ∈ sets, s.Pairwise (·.index < ·.index)

variable {e e' : Engine} {sets : OverloadSets} {s : List DeclId} {d : Decl} {id existing : DeclId}
  {k : Nat}

theorem next?_of_links? {root next : Option DeclId} (h : e.links? id = some (d, root, next)) :
    e.next? id = next := by
  obtain ⟨x, hx, hlinks⟩ := Option.map_eq_some_iff.mp h
  cases hlinks
  rw [next?, hx]
  rfl

namespace Groups

theorem init (config : EngineConfig) : Groups { config } [] where
  linked := .init config
  holds _ hs := nomatch hs
  mem_flatten := by simp
  disjoint := List.Pairwise.nil
  ordered _ hs := nomatch hs

theorem exists_mem (H : e.Groups sets) (hid : id.index < e.decls.size) : ∃ s ∈ sets, id ∈ s :=
  List.mem_flatten.mp (H.mem_flatten.mpr hid)

theorem lt_size (H : e.Groups sets) (hs : s ∈ sets) (hid : id ∈ s) : id.index < e.decls.size :=
  H.mem_flatten.mp (List.mem_flatten.mpr ⟨s, hs, hid⟩)

/-- The links lead along a set. -/
theorem next?_eq (H : e.Groups sets) (hs : s ∈ sets) (hk : s[k]? = some id) :
    e.next? id = s[k + 1]? := by
  obtain ⟨ds, hholds⟩ := H.holds s hs
  obtain ⟨d, -, hlinks⟩ := hholds.exists_links? hk
  exact next?_of_links? hlinks

/-- The links lead to what was declared later. -/
theorem lt_next (H : e.Groups sets) {next : DeclId} (h : e.next? id = some next) :
    id.index < next.index := by
  have hid : id.index < e.decls.size := by
    obtain ⟨x, hx, -⟩ := Option.bind_eq_some_iff.mp h
    exact decl?_eq_some_iff.mp ⟨x, hx⟩
  obtain ⟨s, hs, hmem⟩ := H.exists_mem hid
  obtain ⟨k, hk⟩ := List.mem_iff_getElem?.mp hmem
  rw [H.next?_eq hs hk] at h
  obtain ⟨hk₁, rfl⟩ := List.getElem?_eq_some_iff.mp hk
  obtain ⟨hk₂, rfl⟩ := List.getElem?_eq_some_iff.mp h
  exact List.pairwise_iff_getElem.mp (H.ordered s hs) k (k + 1) hk₁ hk₂ (Nat.lt_succ_self k)

/-! ## What commands do to the sets -/

theorem sameLinks (H : e.Groups sets) (h : e.SameLinks e') : e'.Groups sets where
  linked := h.linked H.linked
  holds s hs := (H.holds s hs).imp fun _ hholds => hholds.keeps h
  mem_flatten := by
    rw [h.size]
    exact H.mem_flatten
  disjoint := H.disjoint
  ordered := H.ordered

/-- What is declared alone is a set of its own. -/
theorem declare (H : e.Groups sets) (h : e.declare d = (.ok id, e')) :
    e'.Groups (sets ++ [[id]]) := by
  have hquiet := declare_quiet e d
  have hid : id = ⟨e.decls.size⟩ := (declare_eq_ok h).1
  have hsize : e'.decls.size = e.decls.size + 1 := (declare_ok h).2
  have hnew {s : List DeclId} (hs : s ∈ sets) : id ∉ s := fun hmem =>
    ne_new (H.lt_size hs hmem) hid rfl
  rw [h] at hquiet
  refine ⟨hquiet.linked H.linked, fun s hs => ?_, fun {i} => ?_, ?_, fun s hs => ?_⟩
  · obtain hs | hs := List.mem_append.mp hs
    · obtain ⟨ds, hholds⟩ := H.holds s hs
      have hother := hholds.declare_other d
      rw [h] at hother
      exact ⟨ds, hother⟩
    · rw [List.mem_singleton.mp hs]
      exact ⟨_, declare_holds H.linked h⟩
  · rw [List.flatten_append, List.mem_append, H.mem_flatten, hsize, hid]
    simp only [List.flatten_cons, List.flatten_nil, List.append_nil, List.mem_singleton]
    refine ⟨fun hi => ?_, fun hi => ?_⟩
    · obtain hi | rfl := hi
      · exact Nat.lt_succ_of_lt hi
      · exact Nat.lt_succ_self _
    · exact (Nat.lt_succ_iff_lt_or_eq.mp hi).imp_right fun hi => congrArg DeclId.mk hi
  · refine List.pairwise_append.mpr ⟨H.disjoint, List.pairwise_singleton .., fun s hs t ht => ?_⟩
    rw [List.mem_singleton.mp ht, List.disjoint_singleton]
    exact hnew hs
  · obtain hs | hs := List.mem_append.mp hs
    · exact H.ordered s hs
    · rw [List.mem_singleton.mp hs]
      exact List.pairwise_singleton ..

/-- A declaration that is added to a set comes last there. -/
theorem overloadInsert (H : e.Groups sets) (hlt : existing.index < e.decls.size)
    (h : e.overloadInsert existing d = (.ok id, e')) : e'.Groups (sets.add existing id) := by
  have hquiet := overloadInsert_quiet H.linked hlt d
  have hid : id = ⟨e.decls.size⟩ := overloadInsert_id h
  have hsize : e'.decls.size = e.decls.size + 1 := overloadInsert_size h
  have hnew : id ∉ sets.flatten := fun hmem => ne_new (H.mem_flatten.mp hmem) hid rfl
  rw [h] at hquiet
  refine ⟨hquiet.linked H.linked, fun t ht => ?_, fun {i} => ?_,
    OverloadSets.disjoint_add H.disjoint hnew, fun t ht => ?_⟩
  · obtain ⟨s, hs, rfl⟩ := List.mem_map.mp ht
    obtain ⟨ds, hholds⟩ := H.holds s hs
    split
    · next hmem => exact ⟨_, hholds.overloadInsert hmem h⟩
    · next hmem =>
      have hother := hholds.overload_other d hlt hmem
      rw [h] at hother
      exact ⟨ds, hother⟩
  · rw [OverloadSets.mem_flatten_add, H.mem_flatten, H.mem_flatten, hsize, hid,
      Nat.lt_succ_iff_lt_or_eq]
    refine or_congr_right ⟨fun hi => congrArg DeclId.index hi.1, fun hi => ⟨?_, hlt⟩⟩
    exact congrArg DeclId.mk hi
  · obtain ⟨s, hs, rfl⟩ := List.mem_map.mp ht
    split
    · refine List.pairwise_append.mpr ⟨H.ordered s hs, List.pairwise_singleton .., ?_⟩
      intro i hi j hj
      rw [List.mem_singleton.mp hj, hid]
      exact H.lt_size hs hi
    · exact H.ordered s hs

/-- A command makes the sets that its reply tells. -/
theorem run (H : e.Groups sets) {c : Command} (hc : c.danglingIn e = none) :
    (c.run e).2.Groups (c.sets sets (c.run e).1) := by
  have hother (hc : ¬c.Declares) : (c.run e).2.Groups sets :=
    H.sameLinks (.of_decls (Command.run_decls hc))
  cases c with
  | declare d =>
    unfold Command.run
    dsimp only
    rcases h : e.declare d with ⟨err | id, e'⟩
    · exact H.sameLinks (.of_decls (decls_of_declare_error h))
    · exact H.declare h
  | overload existing d =>
    have hlt : existing.index < e.decls.size := by
      by_contra hlt
      simp [Command.danglingIn, hlt] at hc
    unfold Command.run
    dsimp only
    rcases h : e.overloadInsert existing d with ⟨err | id, e'⟩
    · exact H.sameLinks (.of_decls (decls_of_overloadInsert_error h))
    · exact H.overloadInsert hlt h
  | addRoot | claim | recordImport | addDiagnostic | pushGag | popGag | flush => exact hother id

end Groups

/-! ## What is rejected -/

/-- What is known of an engine with the overload sets. -/
structure ListsOverloads (e : Engine) (sets : OverloadSets) : Prop where
  /-- No link leads back. -/
  acyclic (id : DeclId) : ¬Relation.TransGen (fun a b => e.next? a = some b) id id
  /-- The links lead along each set and end at its last declaration. -/
  next?_eq {s : List DeclId} {k : Nat} {id : DeclId} : s ∈ sets → s[k]? = some id →
    e.next? id = s[k + 1]?
  /-- The first declaration of a set is the root of each. -/
  head?_eq {s : List DeclId} {id : DeclId} : s ∈ sets → id ∈ s → s.head? = some (e.rootOf id)
  /-- Each declaration of a set has the set as its overloads. -/
  overloads_eq {s : List DeclId} {id : DeclId} : s ∈ sets → id ∈ s → e.overloads id = s
  nodup {s : List DeclId} : s ∈ sets → s.Nodup
  disjoint : sets.Pairwise List.Disjoint
  /-- Every declaration of the engine is in a set. -/
  covers {id : DeclId} : id.index < e.decls.size ↔ ∃ s ∈ sets, id ∈ s
  /-- A declaration that is rejected changes the queue at most. -/
  rejects {d : Decl} {err : TemplateError} {e' : Engine} : e.declare d = (.error err, e') →
    e' = { e with queue := e'.queue } ∧ e'.overloads = e.overloads
  /-- So does one that is rejected as an overload. -/
  rejects_overload {existing : DeclId} {d : Decl} {err : TemplateError} {e' : Engine} :
    e.overloadInsert existing d = (.error err, e') →
    e' = { e with queue := e'.queue } ∧ e'.overloads = e.overloads

theorem Groups.lists (H : e.Groups sets) : e.ListsOverloads sets := by
  have hlt {a b : DeclId} (h : Relation.TransGen (fun a b => e.next? a = some b) a b) :
      a.index < b.index := by
    induction h with
    | single h => exact H.lt_next h
    | tail _ h ih => exact ih.trans (H.lt_next h)
  refine ⟨fun id h => Nat.lt_irrefl _ (hlt h), H.next?_eq, fun {s id} hs hid => ?_,
    fun {s id} hs hid => ?_, fun {s} hs => ?_, H.disjoint,
    fun {id} => ?_, fun h => ?_, fun h => ?_⟩
  · obtain ⟨ds, hholds⟩ := H.holds s hs
    exact hholds.head?_eq hid
  · obtain ⟨ds, hholds⟩ := H.holds s hs
    exact hholds.overloads_eq hid
  · obtain ⟨ds, hholds⟩ := H.holds s hs
    exact hholds.nodup
  · rw [← H.mem_flatten, List.mem_flatten]
  · exact ⟨declare_error h, funext (overloads_congr (decls_of_declare_error h))⟩
  · exact ⟨overloadInsert_error h, funext (overloads_congr (decls_of_overloadInsert_error h))⟩

end Engine

theorem Machine.sets_of_ne {m : Machine σ α} {sets : OverloadSets}
    (hc : ∀ (role : Role) (c : Command) (k : c.Reply → Program σ (role.Result α)),
      m.control ≠ .program role (.command c k)) : m.sets sets = sets := by
  unfold Machine.sets
  split
  · next h => exact absurd h (hc _ _ _)
  · rfl

namespace Service

variable {svc : Service σ} {m : Machine σ α} {sets : OverloadSets}

theorem step_groups (H : m.engine.Groups sets) : (svc.step m).engine.Groups (m.sets sets) := by
  by_cases hc : ∃ (role : Role) (c : Command) (k : c.Reply → Program σ (role.Result α)),
      m.control = .program role (.command c k)
  · obtain ⟨role, c, k, hc⟩ := hc
    obtain ⟨r, control, ws⟩ := m
    cases hc
    unfold Machine.sets step stepProgram
    dsimp only
    cases hd : c.danglingIn r.engine with
    | some h => exact H
    | none => exact H.run hd
  · have hne (role : Role) (c : Command) (k : c.Reply → Program σ (role.Result α))
        (h : m.control = .program role (.command c k)) : False := hc ⟨role, c, k, h⟩
    rw [Machine.sets_of_ne hne]
    exact H.sameLinks ((step_steps m).sameLinks hne)

variable (svc) {config : EngineConfig} {s : σ} {p : Program σ α}

theorem groups_after (n : Nat) : (svc.after n (.boot config s p)).engine.Groups
    (svc.overloadSets (.boot config s p) n) := by
  induction n with
  | zero => exact .init config
  | succ n ih =>
    rw [after_succ]
    exact step_groups ih

/-- **Overload sets are lists.** At every moment of a run the overload sets that the engine knows are
the lists that the commands have made so far. -/
theorem listsOverloads (n : Nat) : (svc.after n (.boot config s p)).engine.ListsOverloads
    (svc.overloadSets (.boot config s p) n) := (groups_after svc n).lists

end Service

/-- A template and two overloads of it. The first of these is rejected, as a parameter follows one
that takes all arguments. -/
def overloadTwice : Program σ Unit :=
  let rest (name : String) : Param := { name, kind := .tuple }
  .command (.declare { name := "A" }) fun _ =>
    .command (.overload ⟨0⟩ { name := "A", params := [rest "S", rest "T"] }) fun _ =>
      .command (.overload ⟨0⟩ { name := "A" }) fun _ => .done ()

example (svc : Service σ) (s : σ) :
    svc.overloadSets (.boot {} s overloadTwice) 3 = [[⟨0⟩, ⟨1⟩]] := rfl

end Templates
