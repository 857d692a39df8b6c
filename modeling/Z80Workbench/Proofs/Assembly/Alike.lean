import Mathlib.Data.List.Forall2
import Z80Workbench.Assembly.Analysis

/-!
# Z80Workbench.Proofs.Assembly.Alike

Lines that no pass tells apart.  Such lines have the same number, labels and operation, and operand
texts with the same values, items, code, sizes and durations; only in the messages about them they
may differ.  Every pass is followed through two lists of such lines side by side: the layouts, the
images, the findings and the steps are the same but for the texts they quote.
-/

namespace Z80Workbench

open Source

/-! ## lists side by side -/

/-- What is the same for the members of two lists is the same for the lists. -/
theorem map_eq_of_forall₂ {α β γ : Type} {R : α → β → Prop} {f : α → γ} {g : β → γ}
    {xs : List α} {ys : List β} (h : List.Forall₂ R xs ys) (hR : ∀ x y, R x y → f x = g y) :
    xs.map f = ys.map g := by
  induction h with
  | nil => rfl
  | cons hxy _ ih => rw [List.map_cons, List.map_cons, hR _ _ hxy, ih]

theorem flatMap_eq_of_forall₂ {α β γ : Type} {R : α → β → Prop} {f : α → List γ} {g : β → List γ}
    {xs : List α} {ys : List β} (h : List.Forall₂ R xs ys) (hR : ∀ x y, R x y → f x = g y) :
    xs.flatMap f = ys.flatMap g := by
  rw [List.flatMap_def, List.flatMap_def, map_eq_of_forall₂ h hR]

theorem filterMap_eq_of_forall₂ {α β γ : Type} {R : α → β → Prop} {f : α → Option γ}
    {g : β → Option γ} {xs : List α} {ys : List β} (h : List.Forall₂ R xs ys)
    (hR : ∀ x y, R x y → f x = g y) : xs.filterMap f = ys.filterMap g := by
  induction h with
  | nil => rfl
  | cons hxy _ ih => rw [List.filterMap_cons, List.filterMap_cons, hR _ _ hxy, ih]

/-- A pass that does the same with the members of two lists does the same with the lists. -/
theorem foldl_eq_of_forall₂ {α β γ : Type} {R : α → β → Prop} {f : γ → α → γ} {g : γ → β → γ}
    {xs : List α} {ys : List β} (h : List.Forall₂ R xs ys)
    (hR : ∀ z x y, R x y → f z x = g z y) (z : γ) : xs.foldl f z = ys.foldl g z := by
  induction h generalizing z with
  | nil => rfl
  | cons hxy _ ih => rw [List.foldl_cons, List.foldl_cons, hR z _ _ hxy, ih]

theorem length_filter_eq_of_forall₂ {α β : Type} {R : α → β → Prop} {f : α → Bool} {g : β → Bool}
    {xs : List α} {ys : List β} (h : List.Forall₂ R xs ys) (hR : ∀ x y, R x y → f x = g y) :
    (xs.filter f).length = (ys.filter g).length := by
  induction h with
  | nil => rfl
  | cons hxy _ ih =>
      rw [List.filter_cons, List.filter_cons, hR _ _ hxy]
      split
      · rw [List.length_cons, List.length_cons, ih]
      · exact ih

theorem length_flatMap_eq_of_forall₂ {α β γ : Type} {R : α → β → Prop} {f : α → List γ}
    {g : β → List γ} {xs : List α} {ys : List β} (h : List.Forall₂ R xs ys)
    (hR : ∀ x y, R x y → (f x).length = (g y).length) :
    (xs.flatMap f).length = (ys.flatMap g).length := by
  rw [List.length_flatMap, List.length_flatMap,
    map_eq_of_forall₂ (f := fun x => (f x).length) (g := fun y => (g y).length) h hR]

/-! ## operand texts -/

/-- Items of a data directive that stand for the same text or the same value. -/
structure ItemAlike (a b : List Char) : Prop where
  quoted : quotedText? a = quotedText? b
  value : ∀ scope, (Expr.read a).value? scope = (Expr.read b).value? scope

/-- Operand texts that no pass tells apart: as an expression, as the items of a data directive and
as the operands of an instruction. -/
structure ArgsAlike (a b : List Char) : Prop where
  value : ∀ scope, (Expr.read a).value? scope = (Expr.read b).value? scope
  items : List.Forall₂ ItemAlike (splitData a) (splitData b)
  code : ∀ operation ctx, ((Instruction.ofArgs operation a).encode ctx).toOption =
    ((Instruction.ofArgs operation b).encode ctx).toOption
  estimate : ∀ m : Mnemonic, m.estimate a = m.estimate b
  cycles : ∀ operation, (Instruction.ofArgs operation a).cycles =
    (Instruction.ofArgs operation b).cycles

theorem ItemAlike.refl (a : List Char) : ItemAlike a a := ⟨rfl, fun _ => rfl⟩

theorem ArgsAlike.refl (a : List Char) : ArgsAlike a a where
  value _ := rfl
  items := List.forall₂_same.mpr fun token _ => .refl token
  code _ _ := rfl
  estimate _ := rfl
  cycles _ := rfl

/-- Lines that no pass tells apart. -/
structure SourceLine.Alike (l m : SourceLine) : Prop where
  number : l.number = m.number
  labels : l.labels = m.labels
  operation : l.operation = m.operation
  args : ArgsAlike l.args.toList m.args.toList

theorem SourceLine.Alike.refl (l : SourceLine) : l.Alike l := ⟨rfl, rfl, rfl, .refl _⟩

/-! ## sizes -/

variable {a b : List Char} {l m : SourceLine}

theorem byteItemSize_alike (h : ItemAlike a b) : byteItemSize a = byteItemSize b := by
  simp only [byteItemSize, h.quoted]

theorem byteItemsSize_alike {xs ys : List (List Char)} (h : List.Forall₂ ItemAlike xs ys) :
    byteItemsSize xs = byteItemsSize ys := by
  induction h with
  | nil => rfl
  | cons hxy _ ih => rw [byteItemsSize, byteItemsSize, byteItemSize_alike hxy, ih]

theorem Directive.size_alike (h : ArgsAlike a b) (d : Directive) (symbols : Symbols) :
    d.size symbols a = d.size symbols b := by
  have space : ((splitData a).head?.map Expr.read).bind (·.value? { symbols }) =
      ((splitData b).head?.map Expr.read).bind (·.value? { symbols }) := by
    have items := h.items
    generalize splitData a = xs, splitData b = ys at items
    cases items with
    | nil => rfl
    | cons hxy _ => exact hxy.value _
  simp only [size, byteItemsSize_alike h.items, h.items.length_eq, space]

/-- The size that an encoding has, if there is one. -/
theorem Instruction.size?_eq (i : Instruction) (symbols : Symbols) :
    i.size? symbols =
      (i.encode { scope := { symbols }, lenient := true }).toOption.map List.length := by
  unfold size?
  cases i.encode { scope := { symbols }, lenient := true } <;> rfl

theorem Operation.size_alike (h : ArgsAlike a b) (operation : Operation) (symbols : Symbols) :
    operation.size symbols a = operation.size symbols b := by
  cases operation with
  | mnemonic m => simp only [size, Instruction.size?_eq, h.code, h.estimate]
  | directive d => exact Directive.size_alike h d symbols
  | unknown word => rfl

/-! ## layouts -/

theorem Extent.ofLine_alike (h : l.Alike m) (scope : Expr.Scope) (address : Int) :
    ofLine scope address l = ofLine scope address m := by
  simp only [ofLine, h.operation, Expr.ofString, h.args.value, Operation.size_alike h.args]

/-- Placements of alike lines at one address. -/
structure Placement.Alike (p q : Placement) : Prop where
  line : p.line.Alike q.line
  address : p.address = q.address
  size : p.size = q.size

theorem Placement.ofExtent_alike (h : l.Alike m) (extent : Extent) :
    (ofExtent l extent).Alike (ofExtent m extent) := by
  unfold ofExtent
  rw [h.operation]
  split
  · exact ⟨h, rfl, rfl⟩
  · exact ⟨h, rfl, rfl⟩

namespace Layout

/-- Layouts in progress that agree on all but the texts of their lines. -/
structure Scan.Alike (s t : Scan) : Prop where
  symbols : s.symbols = t.symbols
  labels : s.labels = t.labels
  counter : s.counter = t.counter
  placed : List.Forall₂ Placement.Alike s.placed t.placed

/-- Alike lines bind the same labels to the same address or value. -/
theorem Scan.bind_alike {s t : Scan} (symbols : s.symbols = t.symbols)
    (labels : s.labels = t.labels) (hl : l.Alike m) (extent : Extent) :
    (s.bind l extent).symbols = (t.bind m extent).symbols ∧
      (s.bind l extent).labels = (t.bind m extent).labels := by
  unfold bind
  rw [hl.operation, hl.labels, hl.number, symbols, labels]
  split
  · split
    · exact ⟨symbols, labels⟩
    · exact ⟨rfl, rfl⟩
  · exact ⟨rfl, rfl⟩

/-- A line leads alike layouts to alike layouts. -/
theorem Scan.Alike.next {s t : Scan} (h : s.Alike t) (hl : l.Alike m)
    (fallback : String → Option Int) : (s.next fallback l).Alike (t.next fallback m) := by
  have bound := bind_alike h.symbols h.labels hl
  simp only [Scan.next, h.symbols, h.counter, Extent.ofLine_alike hl]
  exact ⟨(bound _).1, (bound _).2, rfl, .cons (Placement.ofExtent_alike hl _) h.placed⟩

theorem Scan.Alike.foldl {s t : Scan} (h : s.Alike t) (fallback : String → Option Int)
    {ls ms : List SourceLine} (hl : List.Forall₂ SourceLine.Alike ls ms) :
    (ls.foldl (Scan.next fallback) s).Alike (ms.foldl (Scan.next fallback) t) := by
  induction hl generalizing s t with
  | nil => exact h
  | cons hxy _ ih => exact ih (h.next hxy fallback)

/-- Layouts that agree on all but the texts of their lines. -/
structure Alike (x y : Layout) : Prop where
  symbols : x.symbols = y.symbols
  labels : x.labels = y.labels
  placements : List.Forall₂ Placement.Alike x.placements y.placements

theorem ofLines_alike (fallback : String → Option Int) {ls ms : List SourceLine}
    (h : List.Forall₂ SourceLine.Alike ls ms) :
    (ofLines fallback ls).Alike (ofLines fallback ms) := by
  have scan : (ls.foldl (Scan.next fallback) Scan.start).Alike
      (ms.foldl (Scan.next fallback) Scan.start) :=
    Scan.Alike.foldl ⟨rfl, rfl, rfl, .nil⟩ fallback h
  exact ⟨scan.symbols, scan.labels, List.rel_reverse scan.placed⟩

variable {x y : Layout}

theorem Alike.constants (h : x.Alike y) : x.constants = y.constants :=
  flatMap_eq_of_forall₂ h.placements fun p q hp => by
    simp only [Placement.isEqu, hp.line.operation, hp.line.labels, hp.address]

theorem Alike.addresses (h : x.Alike y) : x.addresses = y.addresses :=
  filterMap_eq_of_forall₂ h.placements fun p q hp => by
    rw [hp.address, hp.line.number]

theorem Alike.isConstant (h : x.Alike y) (name : String) :
    x.isConstant name = y.isConstant name := by
  rw [Layout.isConstant, Layout.isConstant, h.constants]

end Layout

/-! ## images -/

/-- What two lines yield: the same bytes, and as many errors and warnings. -/
structure LineYield.Alike (x y : LineYield) : Prop where
  emission : x.emission = y.emission
  errors : x.errors.length = y.errors.length
  warnings : x.warnings.length = y.warnings.length

namespace Image

variable {p q : Placement}

/-- The items of two lines that have no value are equally many. -/
theorem length_lacking_alike (h : l.Alike m) {f g : List Char → Bool}
    (hfg : ∀ a b, ItemAlike a b → f a = g b) {e e' : List Char → Diagnostic} :
    (((splitData l.args.toList).filter f).map e).length =
      (((splitData m.args.toList).filter g).map e').length := by
  rw [List.length_map, List.length_map, length_filter_eq_of_forall₂ h.args.items hfg]

theorem ofBytes_alike (h : l.Alike m) (setting : Setting) :
    (ofBytes setting l).Alike (ofBytes setting m) where
  emission := by
    simp only [ofBytes]
    rw [flatMap_eq_of_forall₂ h.args.items fun a b hab => by
      show byteItem setting.scope a = byteItem setting.scope b
      simp only [byteItem, hab.quoted, hab.value]]
  errors := length_lacking_alike h fun a b hab => by
    simp only [lacksValue, hab.quoted, hab.value]
  warnings := rfl

theorem ofWords_alike (h : l.Alike m) (setting : Setting) :
    (ofWords setting l).Alike (ofWords setting m) where
  emission := by
    simp only [ofWords]
    rw [flatMap_eq_of_forall₂ h.args.items fun a b hab => by rw [hab.value]]
  errors := length_lacking_alike h fun a b hab => by simp only [hab.value]
  warnings := rfl

theorem ofSpace_alike (h : l.Alike m) (setting : Setting) (size : Nat) :
    (ofSpace setting l size).Alike (ofSpace setting m size) := by
  have items := h.args.items
  unfold ofSpace
  generalize splitData l.args.toList = xs, splitData m.args.toList = ys at items
  cases items with
  | nil => exact ⟨rfl, rfl, rfl⟩
  | cons _ more =>
      cases more with
      | nil => exact ⟨rfl, rfl, rfl⟩
      | cons fill _ =>
          simp only [fill.value]
          split <;> exact ⟨rfl, rfl, rfl⟩

theorem ofInstruction_alike (h : l.Alike m) (setting : Setting) (operation : Operation)
    (address size : Nat) : (ofInstruction setting l operation address size).Alike
      (ofInstruction setting m operation address size) := by
  have code := h.args.code operation { scope := setting.scope, address := some address }
  simp only [ofInstruction]
  generalize (Instruction.ofArgs operation l.args.toList).encode
    { scope := setting.scope, address := some address } = x at code
  generalize (Instruction.ofArgs operation m.args.toList).encode
    { scope := setting.scope, address := some address } = y at code
  cases x with
  | ok bytes =>
      cases y with
      | ok other =>
          cases code
          refine ⟨rfl, rfl, ?_⟩
          dsimp only
          split
          · rfl
          · rw [List.length_singleton, List.length_singleton]
      | error cause => cases code
  | error cause =>
      cases y with
      | ok other => cases code
      | error other => exact ⟨rfl, rfl, rfl⟩

/-- Alike placements yield the same bytes, and as many errors and warnings. -/
theorem ofPlacement_alike (h : p.Alike q) (setting : Setting) :
    (ofPlacement setting p).Alike (ofPlacement setting q) := by
  unfold ofPlacement
  rw [h.line.operation, h.address, h.size]
  split
  · split
    · exact ofBytes_alike h.line setting
    split
    · exact ofWords_alike h.line setting
    split
    · exact ofSpace_alike h.line setting _
    · exact ⟨rfl, rfl, rfl⟩
  · exact ofInstruction_alike h.line setting _ _ _
  · exact ⟨rfl, rfl, rfl⟩
  · exact ⟨rfl, rfl, rfl⟩

/-- Storing what alike lines yield leads to the same image. -/
theorem Scan.next_alike (h : p.Alike q) {x y : LineYield} (hy : x.Alike y) (scan : Scan) :
    scan.next (p, x) = scan.next (q, y) := by
  simp only [next, h.address, hy.emission, store, h.line.labels]

/-- Images that agree on all but the texts of their messages. -/
structure Alike (x y : Image) : Prop where
  memory : x.memory = y.memory
  namedData : x.namedData = y.namedData
  lineBytes : x.lineBytes = y.lineBytes
  errors : x.diagnostics.errors.length = y.diagnostics.errors.length
  warnings : x.diagnostics.warnings.length = y.diagnostics.warnings.length

theorem ofLayout_alike (fallback : String → Option Int) (file : String) {x y : Layout}
    (h : x.Alike y) : (ofLayout fallback file x).Alike (ofLayout fallback file y) := by
  have yields : List.Forall₂ (fun u v => u.1.Alike v.1 ∧ u.2.Alike v.2)
      (x.placements.map fun p => (p, ofPlacement ⟨⟨x.symbols, fallback⟩, file⟩ p))
      (y.placements.map fun q => (q, ofPlacement ⟨⟨y.symbols, fallback⟩, file⟩ q)) := by
    rw [h.symbols]
    exact List.rel_map (fun p q hp => ⟨hp, ofPlacement_alike hp _⟩) h.placements
  have scan := foldl_eq_of_forall₂ (f := Scan.next) (g := Scan.next) yields
    (fun z u v huv => Scan.next_alike huv.1 huv.2 z) ⟨∅, ∅, []⟩
  have aliases (scan : Scan) (known : List String) :
      aliasOf? x scan known = aliasOf? y scan known := by
    funext label
    simp only [aliasOf?, h.isConstant, h.symbols]
  simp only [ofLayout]
  constructor
  case memory => rw [scan]
  case namedData => rw [scan, aliases, h.labels]
  case lineBytes =>
    exact filterMap_eq_of_forall₂ yields fun u v huv => by
      simp only [huv.1.line.number, huv.2.emission]
  case errors => exact length_flatMap_eq_of_forall₂ yields fun u v huv => huv.2.errors
  case warnings => exact length_flatMap_eq_of_forall₂ yields fun u v huv => huv.2.warnings

end Image

theorem Aliasing.ofLayout_alike {x y : Layout} (h : x.Alike y) : ofLayout x = ofLayout y := by
  rw [ofLayout, ofLayout, h.labels, h.symbols]

/-! ## steps -/

namespace Step

/-- A step without the texts that quote its line. -/
def outline (s : Step) : Step := { s with operands := "", description := "" }

theorem outline_ofLine?_alike (h : l.Alike m) (scope : Expr.Scope) (id : Nat) :
    (ofLine? scope l id).map outline = (ofLine? scope m id).map outline := by
  unfold ofLine? SourceLine.isExecutable SourceLine.instruction?
  rw [h.operation, h.number]
  split
  · cases m.operation with
    | none => rfl
    | some operation =>
        simp only [Option.map_some, outline, h.args.cycles]
        rfl
  · rfl

/-- What related lines give to their steps, they give to the rows of their steps. -/
theorem map_ofLines_eq_of_forall₂ {γ : Type} {R : SourceLine → SourceLine → Prop} {f : Step → γ}
    {scope : Expr.Scope} {ls ms : List SourceLine} (h : List.Forall₂ R ls ms)
    (operation : ∀ l m, R l m → l.operation = m.operation)
    (step : ∀ l m, R l m → ∀ id, (ofLine? scope l id).map f = (ofLine? scope m id).map f) :
    (ofLines scope ls).map f = (ofLines scope ms).map f := by
  have executable : List.Forall₂ R (ls.filter (·.isExecutable)) (ms.filter (·.isExecutable)) :=
    List.rel_filter (fun l m hlm => by
      simp only [SourceLine.isExecutable, operation l m hlm]) h
  simp only [ofLines, List.map_filterMap]
  generalize ls.filter (·.isExecutable) = xs at executable
  generalize ms.filter (·.isExecutable) = ys at executable
  generalize 1 = id
  induction executable generalizing id with
  | nil => rfl
  | cons hxy _ ih =>
      rw [List.zipIdx_cons, List.zipIdx_cons, List.filterMap_cons, List.filterMap_cons, ih,
        step _ _ hxy]

/-- Alike lines have the same steps, but for the texts that quote them. -/
theorem outline_ofLines_alike {ls ms : List SourceLine}
    (h : List.Forall₂ SourceLine.Alike ls ms) (scope : Expr.Scope) :
    (ofLines scope ls).map outline = (ofLines scope ms).map outline :=
  map_ofLines_eq_of_forall₂ h (fun _ _ hlm => hlm.operation)
    fun _ _ hlm => outline_ofLine?_alike hlm scope

end Step

end Z80Workbench
