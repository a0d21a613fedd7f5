import Templates.Proofs.Caching
import Templates.Proofs.Engine.Faithful
import Templates.Proofs.Mangling.Decode
import Templates.Proofs.Mangling.Shown

/-!
# What a mangled name identifies

The mangled name of an instance is made of the template's name and the deduced arguments. So it tells
the overload set and the arguments as far as they are shown, but neither the declaration within the
overload set nor the scope (`Service.namesIdentify`). What is shown in full can be read off the name
(`mangle_decodable`).
-/

namespace Templates

variable {σ α : Type}

/-- Different overload sets have different template names, none of which begins with a digit. -/
structure Engine.Named (e : Engine) : Prop where
  apart {d d' : DeclId} : d.index < e.decls.size → d'.index < e.decls.size →
    (e.decl d).name = (e.decl d').name → e.rootOf d = e.rootOf d'
  clear {d : DeclId} : d.index < e.decls.size → Mangle.Clear (e.decl d).name.toList

namespace Engine

variable {e : Engine} {names : SymbolId → String} {i j : InstanceId} {x y : Instance}

theorem mangled_eq (hx : e.inst? i = some x) :
    e.mangled names i = mangle names x.name x.deduced := by
  rw [mangled, hx]

theorem Faithful.genuine_of_inst {sem : Semantics σ} (H : e.Faithful sem)
    (hx : e.inst? i = some x) : e.Genuine sem x := by
  have h := H.genuine (origins_eq_some hx)
  exact ⟨h.declared, h.name, h.matched⟩

theorem Faithful.clear {sem : Semantics σ} (H : e.Faithful sem) (hn : e.Named)
    (hx : e.inst? i = some x) : Mangle.Clear x.name.toList := by
  have h := H.genuine_of_inst hx
  rw [h.name]
  exact hn.clear h.declared

theorem Faithful.mangled_eq_iff {sem : Semantics σ} (H : e.Faithful sem) (hn : e.Named)
    (hnames : Mangle.Proper names) (hx : e.inst? i = some x) (hy : e.inst? j = some y) :
    e.mangled names i = e.mangled names j ↔
      x.name = y.name ∧ Arg.plainList names x.deduced = Arg.plainList names y.deduced := by
  rw [mangled_eq hx, mangled_eq hy]
  exact Mangle.mangle_eq_iff hnames (H.clear hn hx) (H.clear hn hy)

end Engine

/-- What the mangled names say of the instances of an engine. -/
structure Engine.NamesIdentify (e : Engine) (names : SymbolId → String) : Prop where
  /-- Instances have one name exactly if their templates do and nothing that is shown of their
  arguments differs. -/
  shown {i j : InstanceId} {x y : Instance} : e.inst? i = some x → e.inst? j = some y →
    (e.mangled names i = e.mangled names j ↔
      x.name = y.name ∧ Arg.plainList names x.deduced = Arg.plainList names y.deduced)
  /-- Instances with one name belong to one overload set. -/
  overloads {i j : InstanceId} {x y : Instance} : e.inst? i = some x → e.inst? j = some y →
    e.mangled names i = e.mangled names j → e.rootOf x.decl = e.rootOf y.decl
  /-- Two cached instances with one scope, whose arguments are shown, have different names, unless
  different declarations have made the same of their arguments. -/
  cached {d d' : DeclId} {i j : InstanceId} {x y : Instance} :
    i ∈ (e.cache d).ids → j ∈ (e.cache d').ids → e.inst? i = some x → e.inst? j = some y →
    i ≠ j → x.enclosing = y.enclosing →
    Arg.areShown (Arg.flatten x.deduced) = true → Arg.areShown (Arg.flatten y.deduced) = true →
    (e.mangled names i = e.mangled names j ↔
      d ≠ d' ∧ x.name = y.name ∧ Arg.flatten x.deduced = Arg.flatten y.deduced)

/-- **Mangled names identify instances, up to the overload.** The names are those of the front end,
and the chains that it hands on may be any. -/
theorem Service.namesIdentify {svc : Service σ} {config : EngineConfig} {s : σ} {p : Program σ α}
    {names : SymbolId → String} (hnames : Mangle.Proper names) {n : Nat}
    (hnamed : (svc.after n (.boot config s p)).engine.Named) :
    (svc.after n (.boot config s p)).engine.NamesIdentify names := by
  have H : (svc.after n (.boot config s p)).engine.Faithful svc.toSemantics := faithful_after svc n
  have Hc : (svc.after n (.boot config s p)).engine.CachesOnce := cachesOnce_after svc n
  have hshown {i j x y} (hx : (svc.after n (.boot config s p)).engine.inst? i = some x)
      (hy : (svc.after n (.boot config s p)).engine.inst? j = some y) :=
    H.mangled_eq_iff hnamed hnames hx hy
  constructor
  case shown =>
    intro i j x y hx hy
    exact hshown hx hy
  case overloads =>
    intro i j x y hx hy h
    have hgx := H.genuine_of_inst hx
    have hgy := H.genuine_of_inst hy
    refine hnamed.apart hgx.declared hgy.declared ?_
    rw [← hgx.name, ← hgy.name]
    exact ((hshown hx hy).mp h).1
  case cached =>
    intro d d' i j x y hi hj hx hy hne hen hsx hsy
    rw [hshown hx hy]
    constructor
    · rintro ⟨hname, hplain⟩
      have hflat := Arg.flatten_inj hnames.injective hsx hsy hplain
      refine ⟨?_, hname, hflat⟩
      rintro rfl
      obtain ⟨x', hx', hdx, -⟩ := Hc.filed hi
      obtain ⟨y', hy', hdy, -⟩ := Hc.filed hj
      obtain rfl := Option.some.inj (hx.symm.trans hx')
      obtain rfl := Option.some.inj (hy.symm.trans hy')
      have hded := H.deduced_eq hx hy (hdx.trans hdy.symm) hflat
      exact hne (Hc.eq_of_mem_ids hi hj hx hy (by rw [hded, hen]))
    · rintro ⟨-, hname, hflat⟩
      refine ⟨hname, ?_⟩
      rw [← Arg.plainList_flatten, hflat, Arg.plainList_flatten]

/-- All instances that are complete, cached and in one scope have different names. -/
def Engine.NamesDiffer (e : Engine) (names : SymbolId → String) : Prop :=
  ∀ ⦃d d' : DeclId⦄ ⦃i j : InstanceId⦄ ⦃x y : Instance⦄, i ∈ (e.cache d).ids → j ∈ (e.cache d').ids →
    e.inst? i = some x → e.inst? j = some y → i ≠ j → x.enclosing = y.enclosing →
    x.state = .complete → y.state = .complete → e.mangled names i ≠ e.mangled names j

/-- A front end whose instances have no members, whose symbols are counted out, and to which all
values are numbers. -/
def tally : Service Unit where
  evaluate _ _ := pure (.error ⟨"", {}⟩)
  openScope s := pure s
  declareSymbol _ _ _ := pure ()
  symbolName _ s := String.ofList (List.replicate (s.index + 1) 'a')
  conversion _ _ _ := .convert
  elaborate _ _ := .done (.ok [])

theorem toList_tally (s : SymbolId) :
    (tally.symbolName () s).toList = 'a' :: List.replicate s.index 'a' :=
  String.toList_ofList

theorem tally_proper : Mangle.Proper (tally.symbolName ()) where
  injective s t h := by
    have := congrArg (·.toList.length) h
    simp only [toList_tally, List.length_cons, List.length_replicate] at this
    exact congrArg SymbolId.mk (Nat.succ.inj this)
  clear s := by
    rw [toList_tally]
    exact .cons rfl
  notMangled s := by
    rw [toList_tally]
    rintro ⟨r, hr⟩
    cases (List.cons.inj hr).1

/-- Declares `Foo(T)`, `Foo(T : T[])` and `Bar(int n)`, and asks for `Foo!(int)`, `Foo!(char)`,
`Foo!(int[])`, `Bar!(1)` and `Bar!(true)`. -/
def lookalikes : Program Unit (Except TemplateError InstanceId) :=
  .command (.declare { name := "Foo", params := [{ name := "T", kind := .type {} }] }) fun _ =>
  .command (.overload ⟨0⟩
    { name := "Foo"
      params := [{ name := "T", kind := .type { spec := some (.array (.param ⟨0⟩)) } }] }) fun _ =>
  .command (.declare { name := "Bar", params := [{ name := "n", kind := .value { ty := .int } }] })
    fun _ =>
  .request [] { decl := ⟨0⟩, args := [.type .int] } fun _ =>
  .request [] { decl := ⟨0⟩, args := [.type .char] } fun _ =>
  .request [] { decl := ⟨0⟩, args := [.type (.array .int)] } fun _ =>
  .request [] { decl := ⟨2⟩, args := [.value (.int 1)] } fun _ =>
  .request [] { decl := ⟨2⟩, args := [.value (.bool true)] } .done

/-- The machine of the requests at its beginning. -/
def lookalikesBoot : Machine Unit (Except TemplateError InstanceId) :=
  .boot { digest := fun _ _ => default } () lookalikes

theorem lookalikes_named : (tally.after 38 lookalikesBoot).engine.Named := by
  have hcases {d : DeclId} (hd : d.index < (tally.after 38 lookalikesBoot).engine.decls.size) :
      d = ⟨0⟩ ∨ d = ⟨1⟩ ∨ d = ⟨2⟩ := by
    obtain ⟨d⟩ := d
    change d < 3 at hd
    simp only [DeclId.mk.injEq]
    omega
  have hne : "Foo" ≠ "Bar" := by decide
  constructor
  case apart =>
    intro d d' hd hd' h
    rcases hcases hd with rfl | rfl | rfl <;> rcases hcases hd' with rfl | rfl | rfl
    all_goals
      first
      | rfl
      | exact absurd h hne
      | exact absurd h hne.symm
  case clear =>
    intro d hd
    rcases hcases hd with rfl | rfl | rfl <;> exact .cons rfl

/-- `Foo!(int)` and `Foo!(char)` have different names. -/
theorem namesIdentify_lookalikes : Mangle.Proper (tally.symbolName ()) ∧
    (tally.after 38 lookalikesBoot).engine.Named ∧ (tally.after 38 lookalikesBoot).AtTop ∧
    (tally.after 38 lookalikesBoot).engine.NamesIdentify (tally.symbolName ()) ∧
    (tally.after 38 lookalikesBoot).engine.mangled (tally.symbolName ()) ⟨0⟩ ≠
      (tally.after 38 lookalikesBoot).engine.mangled (tally.symbolName ()) ⟨1⟩ := by
  have H := Service.namesIdentify tally_proper lookalikes_named
  refine ⟨tally_proper, lookalikes_named, ⟨rfl, _, rfl⟩, H, fun h => ?_⟩
  have hi : (⟨0⟩ : InstanceId) ∈ ((tally.after 38 lookalikesBoot).engine.cache ⟨0⟩).ids :=
    List.mem_cons_self
  have hj : (⟨1⟩ : InstanceId) ∈ ((tally.after 38 lookalikesBoot).engine.cache ⟨0⟩).ids :=
    List.mem_cons_of_mem _ List.mem_cons_self
  exact ((H.cached hi hj rfl rfl (by decide) rfl rfl rfl).mp h).1 rfl

/-- `Foo!(int)` and `Foo!(int[])` have one name, and so have `Bar!(1)` and `Bar!(true)`. -/
theorem not_namesDiffer_lookalikes : Mangle.Proper (tally.symbolName ()) ∧
    (tally.after 38 lookalikesBoot).engine.Named ∧ (tally.after 38 lookalikesBoot).AtTop ∧
    ¬(tally.after 38 lookalikesBoot).engine.NamesDiffer (tally.symbolName ()) ∧
    (tally.after 38 lookalikesBoot).engine.mangled (tally.symbolName ()) ⟨3⟩ =
      (tally.after 38 lookalikesBoot).engine.mangled (tally.symbolName ()) ⟨4⟩ := by
  have hone : (tally.after 38 lookalikesBoot).engine.mangled (tally.symbolName ()) ⟨3⟩ =
      mangle (tally.symbolName ()) "Bar" [.value .int (.int 1)] := rfl
  have htrue : (tally.after 38 lookalikesBoot).engine.mangled (tally.symbolName ()) ⟨4⟩ =
      mangle (tally.symbolName ()) "Bar" [.value .int (.bool true)] := rfl
  refine ⟨tally_proper, lookalikes_named, ⟨rfl, _, rfl⟩, fun H => ?_, hone.trans htrue.symm⟩
  have hi : (⟨0⟩ : InstanceId) ∈ ((tally.after 38 lookalikesBoot).engine.cache ⟨0⟩).ids :=
    List.mem_cons_self
  have hj : (⟨2⟩ : InstanceId) ∈ ((tally.after 38 lookalikesBoot).engine.cache ⟨1⟩).ids :=
    List.mem_cons_self
  exact H hi hj rfl rfl (by decide) rfl rfl rfl rfl

/-! ## Arguments with constants of their types -/

/-- Truth values and characters stand at no type but theirs, and numbers do not stand there. -/
def Const.isOwnAt (t : Ty) : Const → Bool
  | .bool _ => t = .bool
  | .char _ => t = .char
  | .int _ => t ≠ .bool && t ≠ .char
  | .str _ | .null => true
  | .standIn _ => false

theorem Const.isOwnAt_telling : Const.Telling Const.isOwnAt where
  bool_int h := by simp_all [isOwnAt]
  char_int h := by simp_all [isOwnAt]
  bool_char h := by simp_all [isOwnAt]
  standIn := rfl

/-- **Mangled names are uniquely decodable.** From the name of an instance whose arguments are known
in full, with constants of their types, the template's name and the arguments can be read, up to the
sequences that they stand in. -/
theorem mangle_decodable {names : SymbolId → String} (hnames : Mangle.Proper names) {n m : String}
    (hn : Mangle.Clear n.toList) (hm : Mangle.Clear m.toList) {as bs : List Arg}
    (has : Arg.areShownBy Const.isOwnAt (Arg.flatten as) = true)
    (hbs : Arg.areShownBy Const.isOwnAt (Arg.flatten bs) = true) :
    mangle names n as = mangle names m bs ↔ n = m ∧ Arg.flatten as = Arg.flatten bs := by
  rw [Mangle.mangle_eq_iff hnames hn hm]
  constructor
  · rintro ⟨hnm, hplain⟩
    exact ⟨hnm, Arg.flatten_inj_of_shownBy hnames.injective Const.isOwnAt_telling has hbs hplain⟩
  · rintro ⟨hnm, hflat⟩
    refine ⟨hnm, ?_⟩
    rw [← Arg.plainList_flatten, hflat, Arg.plainList_flatten]

/-- Whether `5` and `'c'` stand in a sequence does not change the name of `Foo!(Bar!(true)[], 5, 'c')`,
and with `6` for `5` the name is another. -/
theorem mangle_decodable_nested :
    let first : Arg := .type (.array (.inst (.symbol ⟨1⟩) [.value .bool (.bool true)]))
    let rest (n : Int) : List Arg := [.value (.const .bool) (.int n), .value .char (.char 'c')]
    Mangle.Proper (tally.symbolName ()) ∧ Mangle.Clear "Foo".toList ∧
      Arg.areShownBy Const.isOwnAt (Arg.flatten [first, .tuple (rest 5)]) = true ∧
      Arg.areShownBy Const.isOwnAt (Arg.flatten (first :: rest 5)) = true ∧
      Arg.areShownBy Const.isOwnAt (Arg.flatten (first :: rest 6)) = true ∧
      mangle (tally.symbolName ()) "Foo" [first, .tuple (rest 5)] =
        mangle (tally.symbolName ()) "Foo" (first :: rest 5) ∧
      mangle (tally.symbolName ()) "Foo" [first, .tuple (rest 5)] ≠
        mangle (tally.symbolName ()) "Foo" (first :: rest 6) := by
  intro first rest
  have hfoo : Mangle.Clear "Foo".toList := .cons rfl
  refine ⟨tally_proper, hfoo, rfl, rfl, rfl, ?_, fun h => ?_⟩
  · exact (mangle_decodable tally_proper hfoo hfoo rfl rfl).mpr ⟨rfl, rfl⟩
  · have hflat := ((mangle_decodable tally_proper hfoo hfoo rfl rfl).mp h).2
    exact absurd hflat (by decide)

end Templates
