import Mathlib.Order.Basic
import Mathlib.Order.Nat
import Templates.Program
import Templates.Proofs.Engine.Operations

/-!
# What the engine leaves alone

Most of what the engine does touches neither the caches nor the course of an instance: it counts,
reports, opens and closes gags, records modules, and takes in declarations. `Engine.Quiet` says so of
two engines, and every command is quiet (`Command.run_quiet`).
-/

namespace Templates

/-- The instance without what using it changes: its mark of speculation, who emits it, what it
imports, and the scope of its parameters. -/
def Instance.core (i : Instance) : Instance :=
  { i with gagged := false, claimed := false, paramScope := none, firstModule := none, imports := [] }

/-- The instances of an engine by their handles. -/
abbrev Arena := InstanceId → Option Instance

/-- A declaration that the engine has let in. -/
def Decl.Accepted (d : Decl) : Prop := ∃ d₀ : Decl, d₀.finalize? = .ok d

namespace Engine

def arena (e : Engine) : Arena := fun i => (e.inst? i).map Instance.core

/-- The cache of `d`; empty if there is no such declaration. -/
def cache (e : Engine) (d : DeclId) : InstanceCache := ((e.decl? d).map (·.cache)).getD {}

/-- The links between overloads lead to declarations. -/
structure Linked (e : Engine) : Prop where
  next {d n : DeclId} {x : DeclEntry} :
    e.decl? d = some x → x.next = some n → n.index < e.decls.size
  root {d r : DeclId} {x : DeclEntry} :
    e.decl? d = some x → x.root = some r → r.index < e.decls.size

/-- Declarations come and stay. -/
structure Grows (e e' : Engine) : Prop where
  config : e'.config = e.config
  decls : e.decls.size ≤ e'.decls.size
  decl {d : DeclId} : d.index < e.decls.size → e'.decl d = e.decl d
  accepted {d : DeclId} : d.index < e'.decls.size → e.decls.size ≤ d.index → (e'.decl d).Accepted
  linked : e.Linked → e'.Linked

/-- No instance was made, moved on, began or ceased to wait, or left its cache. -/
structure Quiet (e e' : Engine) : Prop extends e.Grows e' where
  insts : e'.insts.size = e.insts.size
  arena : e'.arena = e.arena
  cache : e'.cache = e.cache

variable {e e' e'' : Engine} {d : DeclId} {i : InstanceId}

/-! ## Parts of the engine -/

theorem decl?_eq_some_iff : (∃ x, e.decl? d = some x) ↔ d.index < e.decls.size := by
  simp [decl?, ← Option.isSome_iff_exists]

theorem inst?_eq_some_iff : (∃ x, e.inst? i = some x) ↔ i.index < e.insts.size := by
  simp [inst?, ← Option.isSome_iff_exists]

theorem cache_of_decl? {x : DeclEntry} (h : e.decl? d = some x) : e.cache d = x.cache := by
  rw [cache, h, Option.map_some, Option.getD_some]

theorem decl?_modifyDecl (e : Engine) (d d' : DeclId) (f : DeclEntry → DeclEntry) :
    (e.modifyDecl d f).decl? d' = if d = d' then (e.decl? d').map f else e.decl? d' := by
  obtain ⟨d⟩ := d
  obtain ⟨d'⟩ := d'
  simp only [decl?, modifyDecl, Array.getElem?_modify, DeclId.mk.injEq]

@[simp] theorem decls_modifyDecl_size (f : DeclEntry → DeclEntry) :
    (e.modifyDecl d f).decls.size = e.decls.size := Array.size_modify ..

@[simp] theorem insts_modifyInst_size (f : Instance → Instance) :
    (e.modifyInst i f).insts.size = e.insts.size := Array.size_modify ..

theorem cache_modifyDecl (f : DeclEntry → DeclEntry) (hf : ∀ x, (f x).cache = x.cache)
    (d' : DeclId) : (e.modifyDecl d f).cache d' = e.cache d' := by
  unfold cache
  rw [decl?_modifyDecl]
  split
  · simp [Function.comp_def, hf]
  · rfl

theorem decl_modifyDecl (f : DeclEntry → DeclEntry) (hf : ∀ x, (f x).toDecl = x.toDecl)
    (d' : DeclId) : (e.modifyDecl d f).decl d' = e.decl d' := by
  unfold decl
  rw [decl?_modifyDecl]
  split
  · simp [Function.comp_def, hf]
  · rfl

theorem Linked.init (config : EngineConfig) : Linked { config } := by
  constructor
  · intro d n x hx
    simp [decl?] at hx
  · intro d r x hx
    simp [decl?] at hx

theorem Linked.rootOf (H : e.Linked) (h : d.index < e.decls.size) :
    (e.rootOf d).index < e.decls.size := by
  unfold Engine.rootOf
  obtain ⟨x, hx⟩ := decl?_eq_some_iff.mpr h
  rw [hx]
  cases hr : x.root with
  | none => simpa [hr] using h
  | some r => simpa [hr] using H.root hx hr

theorem Linked.modifyDecl {f : DeclEntry → DeclEntry} (H : e.Linked)
    (hn : ∀ x n, (f x).next = some n → x.next = some n ∨ n.index < e.decls.size)
    (hr : ∀ x r, (f x).root = some r → x.root = some r ∨ r.index < e.decls.size) :
    (e.modifyDecl d f).Linked := by
  constructor
  · intro d' n x hx hnext
    rw [decl?_modifyDecl] at hx
    rw [decls_modifyDecl_size]
    split at hx
    · obtain ⟨y, hy, rfl⟩ := Option.map_eq_some_iff.mp hx
      exact (hn y n hnext).elim (H.next hy) id
    · exact H.next hx hnext
  · intro d' r x hx hroot
    rw [decl?_modifyDecl] at hx
    rw [decls_modifyDecl_size]
    split at hx
    · obtain ⟨y, hy, rfl⟩ := Option.map_eq_some_iff.mp hx
      exact (hr y r hroot).elim (H.root hy) id
    · exact H.root hx hroot

/-! ## Growth -/

namespace Grows

@[refl] theorem refl (e : Engine) : Grows e e where
  config := rfl
  decls := Nat.le_refl _
  decl _ := rfl
  accepted h h' := absurd h (Nat.not_lt.mpr h')
  linked := id

@[trans] theorem trans (h : Grows e e') (h' : Grows e' e'') : Grows e e'' where
  config := h'.config.trans h.config
  decls := h.decls.trans h'.decls
  decl hd := (h'.decl (hd.trans_le h.decls)).trans (h.decl hd)
  accepted {d} hd hd' := by
    rcases Nat.lt_or_ge d.index e'.decls.size with hlt | hge
    · rw [h'.decl hlt]
      exact h.accepted hlt hd'
    · exact h'.accepted hd hge
  linked H := h'.linked (h.linked H)

theorem of_eq (hc : e'.config = e.config) (hd : e'.decls = e.decls) : Grows e e' where
  config := hc
  decls := (congrArg Array.size hd).ge
  decl _ := by simp [Engine.decl, decl?, hd]
  accepted h h' := absurd (hd ▸ h) (Nat.not_lt.mpr h')
  linked H := by
    constructor
    · intro d n x hx hn
      rw [hd]
      exact H.next (d := d) (by simpa [decl?, hd] using hx) hn
    · intro d r x hx hr
      rw [hd]
      exact H.root (d := d) (by simpa [decl?, hd] using hx) hr

theorem modifyDecl {f : DeclEntry → DeclEntry} (hd : ∀ x, (f x).toDecl = x.toDecl)
    (hl : e.Linked → (e.modifyDecl d f).Linked) : Grows e (e.modifyDecl d f) where
  config := rfl
  decls := (decls_modifyDecl_size f).ge
  decl _ := decl_modifyDecl f hd _
  accepted h h' := by
    rw [decls_modifyDecl_size] at h
    exact absurd h (Nat.not_lt.mpr h')
  linked := hl

end Grows

/-! ## Quiet changes -/

namespace Quiet

@[refl] theorem refl (e : Engine) : Quiet e e := ⟨.refl e, rfl, rfl, rfl⟩

@[trans] theorem trans (h : Quiet e e') (h' : Quiet e' e'') : Quiet e e'' :=
  ⟨h.toGrows.trans h'.toGrows, h'.insts.trans h.insts, h'.arena.trans h.arena, h'.cache.trans h.cache⟩

/-- The queue, the counters and the root modules may change. -/
theorem of_eq (hc : e'.config = e.config) (hi : e'.insts = e.insts) (hd : e'.decls = e.decls) :
    Quiet e e' where
  toGrows := .of_eq hc hd
  insts := congrArg Array.size hi
  arena := funext fun i => by simp [Engine.arena, inst?, hi]
  cache := funext fun d => by simp [Engine.cache, decl?, hd]

theorem modifyInst {f : Instance → Instance} (hf : ∀ x, (f x).core = x.core) :
    Quiet e (e.modifyInst i f) where
  toGrows := .of_eq rfl rfl
  insts := insts_modifyInst_size f
  arena := funext fun j => by
    unfold Engine.arena
    rw [inst?_modifyInst]
    split
    · simp [Function.comp_def, hf]
    · rfl
  cache := rfl

theorem modifyDecl {f : DeclEntry → DeclEntry} (hd : ∀ x, (f x).toDecl = x.toDecl)
    (hc : ∀ x, (f x).cache = x.cache) (hl : e.Linked → (e.modifyDecl d f).Linked) :
    Quiet e (e.modifyDecl d f) where
  toGrows := .modifyDecl hd hl
  insts := rfl
  arena := rfl
  cache := funext (cache_modifyDecl f hc)

end Quiet

/-! ## What is quiet -/

theorem decl?_push {x : DeclEntry} {d : DeclId} :
    { e with decls := e.decls.push x }.decl? d =
      if d.index = e.decls.size then some x else e.decl? d := by
  simp only [decl?, Array.getElem?_push]

theorem declare_quiet (e : Engine) (d : Decl) : e.Quiet (e.declare d).2 := by
  obtain ⟨reason, -, h⟩ | ⟨d', hf, h⟩ := e.declare_cases d <;> rw [h]
  · exact .of_eq rfl rfl rfl
  · have hsize : (e.decls.push { d' with }).size = e.decls.size + 1 := Array.size_push ..
    have hnone : e.decl? ⟨e.decls.size⟩ = none := by simp [decl?]
    refine ⟨⟨rfl, by simp, fun {c} hc => ?_, fun {c} hc hc' => ?_,
      fun H => ⟨fun {c n x} hx hn => ?_, fun {c r x} hx hr => ?_⟩⟩, rfl, rfl, funext fun c => ?_⟩
    · unfold decl
      rw [decl?_push, if_neg hc.ne]
    · have h : c.index = e.decls.size := by
        change c.index < (e.decls.push { d' with }).size at hc
        omega
      unfold decl
      rw [decl?_push, if_pos h]
      exact ⟨d, hf⟩
    · change n.index < (e.decls.push { d' with }).size
      rw [decl?_push] at hx
      split at hx
      · cases hx
        cases hn
      · have := H.next hx hn
        omega
    · change r.index < (e.decls.push { d' with }).size
      rw [decl?_push] at hx
      split at hx
      · cases hx
        cases hr
      · have := H.root hx hr
        omega
    · unfold cache
      rw [decl?_push]
      split
      · next h =>
        obtain rfl : c = ⟨e.decls.size⟩ := congrArg DeclId.mk h
        rw [hnone]
        rfl
      · rfl

theorem declare_ok {d : Decl} {id : DeclId} {e' : Engine} (h : e.declare d = (.ok id, e')) :
    id.index = e.decls.size ∧ e'.decls.size = e.decls.size + 1 := by
  obtain ⟨_, -, hd⟩ | ⟨_, -, hd⟩ := e.declare_cases d <;> cases hd.symm.trans h
  exact ⟨rfl, Array.size_push ..⟩

/-- An overload of a declaration of the engine. -/
theorem overloadInsert_quiet (H : e.Linked) {d' : DeclId} (hd : d'.index < e.decls.size)
    (new : Decl) : e.Quiet (e.overloadInsert d' new).2 := by
  have hquiet := declare_quiet e new
  obtain ⟨_, e', hn, h⟩ | ⟨id, e', hn, h⟩ := e.overloadInsert_cases d' new <;>
    rw [hn] at hquiet <;> rw [h]
  · exact hquiet
  · obtain ⟨hid, hsize⟩ := declare_ok hn
    have hroot : (e.rootOf d').index < e'.decls.size := (H.rootOf hd).trans_le hquiet.decls
    have hfirst : e'.Quiet (e'.modifyDecl id fun d => { d with root := some (e.rootOf d') }) :=
      .modifyDecl (fun _ => rfl) (fun _ => rfl) fun H' =>
        H'.modifyDecl (fun _ _ h => .inl h) fun _ r h => .inr (by cases h; exact hroot)
    refine hquiet.trans (hfirst.trans (.modifyDecl (fun _ => rfl) (fun _ => rfl) fun H' => ?_))
    refine H'.modifyDecl (fun _ n h => .inr ?_) fun _ _ h => .inl h
    cases h
    rw [decls_modifyDecl_size]
    omega

theorem countRequest_quiet (e : Engine) : e.Quiet e.countRequest := .of_eq rfl rfl rfl

theorem addRoot_quiet (e : Engine) (m : ModuleId) : e.Quiet (e.addRoot m) := by
  obtain ⟨-, h⟩ | h := e.addRoot_cases m <;> rw [h]
  exact .of_eq rfl rfl rfl

theorem claimCodegen_quiet (e : Engine) (i : InstanceId) (m : ModuleId) :
    e.Quiet (e.claimCodegen i m).2 := by
  obtain h | h := e.claimCodegen_cases i m <;> rw [h]
  exact .modifyInst fun _ => rfl

theorem recordImport_quiet (e : Engine) (i : InstanceId) (m : ModuleId) :
    e.Quiet (e.recordImport i m) := by
  refine .modifyInst fun x => ?_
  unfold Instance.addImport
  split <;> rfl

theorem touch_quiet (e : Engine) (i : InstanceId) (r : Request) : e.Quiet (e.touch i r) := by
  obtain ⟨-, h⟩ | ⟨-, h⟩ := e.touch_cases i r <;> rw [h]
  exact .modifyInst fun _ => rfl

theorem reject_quiet (e : Engine) (names : SymbolId → String) (err : TemplateError) (c : Chain) :
    e.Quiet (e.reject names err c).2 := .of_eq rfl rfl rfl

theorem countHit_quiet (e : Engine) : e.Quiet e.countHit := .of_eq rfl rfl rfl

/-! ## Answers without a new instance -/

variable {names : SymbolId → String} {r : Request} {c : Chain} {p : Plan}

/-- An answer without a new instance is quiet, but for a reference to an instance further out on the
chain, which makes the innermost one wait. -/
theorem answer?_cases {a : Except TemplateError InstanceId}
    (h : e.answer? names r c p = some (a, e')) :
    e.Quiet e' ∨ ∃ f ∈ c, ∃ i, c.innermost? = some i ∧ i ≠ f.inst ∧ e' = e.defer i f.inst := by
  cases finds_of_answer? h with
  | recursive | tooDeep => exact .inl (reject_quiet ..)
  | reference => exact .inl (.refl e)
  | defer hf _ hi hne => exact .inr ⟨_, Chain.mem_of_findAttempt? hf, _, hi, hne, rfl⟩
  | failed => exact .inl e.countHit_quiet
  | busy => exact .inl (e.countHit_quiet.trans (reject_quiet ..))
  | cached => exact .inl (e.countHit_quiet.trans (touch_quiet ..))

end Engine

/-- What a command does at once is quiet. -/
theorem Command.run_quiet {e : Engine} (H : e.Linked) (c : Command)
    (hc : c.danglingIn e = none) : e.Quiet (c.run e).2 := by
  cases c with
  | declare d => exact Engine.declare_quiet e d
  | overload d d' =>
    refine Engine.overloadInsert_quiet H ?_ d'
    by_contra h
    simp [Command.danglingIn, h] at hc
  | addRoot m => exact Engine.addRoot_quiet e m
  | claim i m => exact Engine.claimCodegen_quiet e i m
  | recordImport i m => exact Engine.recordImport_quiet e i m
  | addDiagnostic | pushGag | popGag | flush => exact .of_eq rfl rfl rfl

end Templates
