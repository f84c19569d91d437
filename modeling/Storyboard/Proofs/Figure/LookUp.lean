import Storyboard.Figure.Location
import Storyboard.Proofs.Failure

/-!
# Looking a name up

What a name stands for decides how it is located: at once, as the image of a point
under a fold, or through the points that its declaration uses.  One step of the
location asks for other names and makes a point of the answers.  The names that it
asks for are its dependencies; they do not depend on the setting.
-/

namespace Storyboard

variable {α : Type}

/-- A name that is looked up, with or without regard to folds. -/
structure LookUp where
  folding : Bool
  id : String
  deriving DecidableEq

/-- What a name stands for when it is looked up. -/
inductive Referent (α : Type) where
  | origin
  /-- The image under a fold of the point at a place. -/
  | turned (f : Fold α) (place : Nat)
  | vertex (v : Vec α)
  | declared (p : NamedPoint α)
  | unknown

/-- The points that the image at a place of a fold is made from, the hinge last. -/
def Fold.sources (f : Fold α) (place : Nat) : List String :=
  f.moving[place]?.toList ++ [f.hinge.1, f.hinge.2]

/-- The points that a recipe looks up; the vertex of a vertex is none of them. -/
def Recipe.points : Recipe α → List String
  | .vertex _ => []
  | .midpoint a b | .ratio a b _ | .onSegment a b _ => [a, b]
  | .center points => points

/-- The points that a declared point is placed by. -/
def NamedPoint.uses (p : NamedPoint α) : List String :=
  match p.recipe with
  | .ok recipe => recipe.points
  | .error _ => []

theorem Model.model_of_figure [Analytic α] {m : Model α} {fig : Figure α}
    (h : m.figure = .ok fig) : fig.model = m := by
  unfold Model.figure at h
  split at h
  · cases h
    rfl
  · cases h

namespace Figure

/-- What a name stands for. -/
def referent (fig : Figure α) (q : LookUp) : Referent α :=
  if q.id = centerId then .origin
  else
    match if q.folding then fig.foldOnto? q.id else none with
    | some (f, k) => .turned f k
    | none =>
      match fig.vertices.get? q.id with
      | some v => .vertex v
      | none =>
        match fig.definition? q.id with
        | some p => .declared p
        | none => .unknown

/-- The look-ups that a look-up asks for. -/
def dependencies (fig : Figure α) (q : LookUp) : List LookUp :=
  match fig.referent q with
  | .turned f k => (f.sources k).map fun id => ⟨false, id⟩
  | .declared p => p.uses.map fun id => ⟨true, id⟩
  | .origin | .vertex _ | .unknown => []

/-- A look-up that another one asks for. -/
def DependsOn (fig : Figure α) (q r : LookUp) : Prop := r ∈ fig.dependencies q

theorem referent_eq_origin_iff {fig : Figure α} {q : LookUp} :
    fig.referent q = .origin ↔ q.id = centerId := by
  unfold referent
  by_cases hcenter : q.id = centerId
  · simp [hcenter]
  · cases if q.folding then fig.foldOnto? q.id else none with
    | some fk => simp [hcenter]
    | none => cases fig.vertices.get? q.id <;> cases fig.definition? q.id <;> simp [hcenter]

theorem referent_eq_turned_iff {fig : Figure α} {q : LookUp} {f : Fold α} {k : Nat} :
    fig.referent q = .turned f k ↔
      q.id ≠ centerId ∧ q.folding = true ∧ fig.foldOnto? q.id = some (f, k) := by
  unfold referent
  by_cases hcenter : q.id = centerId
  · simp [hcenter]
  · cases hfolding : q.folding with
    | true =>
        cases hfold : fig.foldOnto? q.id with
        | some fk => simp [hcenter, Prod.ext_iff]
        | none => cases fig.vertices.get? q.id <;> cases fig.definition? q.id <;> simp [hcenter]
    | false => cases fig.vertices.get? q.id <;> cases fig.definition? q.id <;> simp [hcenter]

theorem referent_eq_vertex_iff {fig : Figure α} {q : LookUp} {v : Vec α} :
    fig.referent q = .vertex v ↔
      q.id ≠ centerId ∧ (q.folding = true → fig.foldOnto? q.id = none) ∧
        fig.vertices.get? q.id = some v := by
  unfold referent
  by_cases hcenter : q.id = centerId
  · simp [hcenter]
  · cases hfolding : q.folding with
    | true =>
        cases hfold : fig.foldOnto? q.id with
        | some fk => simp [hcenter]
        | none => cases fig.vertices.get? q.id <;> cases fig.definition? q.id <;> simp [hcenter]
    | false => cases fig.vertices.get? q.id <;> cases fig.definition? q.id <;> simp [hcenter]

theorem referent_eq_declared_iff {fig : Figure α} {q : LookUp} {p : NamedPoint α} :
    fig.referent q = .declared p ↔
      q.id ≠ centerId ∧ (q.folding = true → fig.foldOnto? q.id = none) ∧
        fig.vertices.get? q.id = none ∧ fig.definition? q.id = some p := by
  unfold referent
  by_cases hcenter : q.id = centerId
  · simp [hcenter]
  · cases hfolding : q.folding with
    | true =>
        cases hfold : fig.foldOnto? q.id with
        | some fk => simp [hcenter]
        | none => cases fig.vertices.get? q.id <;> cases fig.definition? q.id <;> simp [hcenter]
    | false => cases fig.vertices.get? q.id <;> cases fig.definition? q.id <;> simp [hcenter]

theorem referent_eq_unknown_iff {fig : Figure α} {q : LookUp} :
    fig.referent q = .unknown ↔
      q.id ≠ centerId ∧ (q.folding = true → fig.foldOnto? q.id = none) ∧
        fig.vertices.get? q.id = none ∧ fig.definition? q.id = none := by
  unfold referent
  by_cases hcenter : q.id = centerId
  · simp [hcenter]
  · cases hfolding : q.folding with
    | true =>
        cases hfold : fig.foldOnto? q.id with
        | some fk => simp [hcenter]
        | none => cases fig.vertices.get? q.id <;> cases fig.definition? q.id <;> simp [hcenter]
    | false => cases fig.vertices.get? q.id <;> cases fig.definition? q.id <;> simp [hcenter]

/-! ## One step -/

section Step

variable {m : Type → Type} [Monad m] [MonadExceptOf Fault m] [Analytic α]

/-- The image of a point under a fold, if the fold has a hinge to turn about. -/
def imageBy (f : Fold α) (image : Option (Vec α)) : m (Vec α) :=
  match image with
  | some v => pure v
  | none => throw (.malformed f.id "hinge endpoints coincide")

/-- The image at a place of a fold, from the answers for its sources. -/
def turnBy (fig : Figure α) (setting : Setting α) (f : Fold α) (place : Nat)
    (look : String → m (Vec α)) : m (Vec α) :=
  match f.moving[place]? with
  | none => throw (.malformed f.id "movingPoints and foldedPoints differ in length")
  | some source => do
    let p ← look source
    let a ← look f.hinge.1
    let b ← look f.hinge.2
    imageBy f (p.rotate? a b (Analytic.radians (fig.angle setting f)))

/-- A point made from the answers for two others. -/
def pairBy (look : String → m (Vec α)) (a b : String) (make : Vec α → Vec α → Vec α) :
    m (Vec α) := do
  let p ← look a
  let q ← look b
  return make p q

/-- The point of a recipe, from the answers for the points that it looks up. -/
def followBy (fig : Figure α) (setting : Setting α) (recipe : Recipe α)
    (look : String → m (Vec α)) : m (Vec α) :=
  match recipe with
  | .vertex id =>
    match fig.vertex id with
    | .ok v => pure v
    | .error fault => throw fault
  | .midpoint a b => pairBy look a b Vec.midpoint
  | .ratio a b ratio => pairBy look a b fun p q => p.along q (intendedRatio ratio)
  | .onSegment a b param =>
    match fig.parameter? setting param with
    | none => throw (.unknownParameter param)
    | some t => pairBy look a b fun p q => p.along q t
  | .center points => do
    let placed ← points.mapM look
    return Vec.mean placed

/-- A declared point, from the answers for the points that it uses. -/
def placeBy (fig : Figure α) (setting : Setting α) (p : NamedPoint α)
    (look : String → m (Vec α)) : m (Vec α) :=
  match p.recipe with
  | .error fault => throw fault
  | .ok recipe => fig.followBy setting recipe look

/-- The answer to a look-up within a chain, from the answers to those that it asks for. -/
def locateBy (fig : Figure α) (setting : Setting α)
    (look : List String → LookUp → m (Vec α)) (chain : List String) (q : LookUp) :
    m (Vec α) :=
  match fig.referent q with
  | .origin => pure 0
  | .turned f k => fig.turnBy setting f k fun id => look chain ⟨false, id⟩
  | .vertex v => pure v
  | .declared p =>
    if q.id ∈ chain then throw (.cyclic (chain ++ [q.id]))
    else fig.placeBy setting p fun id => look (chain ++ [q.id]) ⟨true, id⟩
  | .unknown => throw (.unknownPoint q.id)

end Step

/-- The answer to a look-up within a chain. -/
def answer [Analytic α] (fig : Figure α) (setting : Setting α) (chain : List String)
    (q : LookUp) : Except Fault (Vec α) :=
  fig.locateIn setting chain q.folding q.id

section Passages

variable [Analytic α] {fig : Figure α} {setting : Setting α} {chain : List String}

theorem result_turnIn (f : Fold α) (k : Nat) (look : Passage.Look chain (Vec α)) :
    (fig.turnIn setting f k look).result =
      fig.turnBy setting f k fun id => (look chain rfl id).result := by
  unfold turnIn turnBy
  cases f.moving[k]? with
  | none => rfl
  | some source => exact Passage.result_triple look source f.hinge.1 f.hinge.2 _

theorem result_placeIn (p : NamedPoint α) (look : Passage.Look chain (Vec α)) :
    (fig.placeIn setting p look).result =
      fig.placeBy setting p fun id => (look chain rfl id).result := by
  unfold placeIn placeBy
  cases p.recipe with
  | error fault => rfl
  | ok recipe =>
      cases recipe with
      | vertex id =>
          dsimp only [followBy]
          cases fig.vertex id <;> rfl
      | midpoint a b | ratio a b ratio => exact Passage.result_both look a b _
      | onSegment a b param =>
          dsimp only [followBy]
          cases fig.parameter? setting param with
          | none => rfl
          | some t => exact Passage.result_both look a b _
      | center points =>
          dsimp only [followBy]
          rw [Passage.result_andThen, Passage.result_each]
          rfl

end Passages

/-- Every look-up is answered from the answers to those that it asks for. -/
theorem answer_eq [Analytic α] (fig : Figure α) (setting : Setting α) (chain : List String)
    (q : LookUp) :
    fig.answer setting chain q = fig.locateBy setting (fig.answer setting) chain q := by
  obtain ⟨folding, id⟩ := q
  rw [answer, locateIn, pass, locateBy, referent]
  by_cases hcenter : id = centerId
  · simp only [if_pos hcenter]
    rfl
  · simp only [if_neg hcenter]
    split
    next f k hfold =>
      rw [hfold]
      exact result_turnIn f k _
    next hfold =>
      rw [hfold]
      dsimp only
      cases fig.vertices.get? id with
      | some v => rfl
      | none =>
          dsimp only
          split
          next hdef =>
            rw [hdef]
            rfl
          next p hdef =>
            rw [hdef]
            dsimp only
            split
            next => rfl
            next hchain =>
              let look : Passage.Look (chain ++ [id]) (Vec α) :=
                fun chain' _ id => fig.pass setting chain' true id
              exact result_placeIn p look

theorem locate_center [Analytic α] (fig : Figure α) (setting : Setting α) :
    fig.locate setting centerId = .ok 0 := by
  rw [locate, locateIn, pass, if_pos rfl]
  rfl

/-- The points of a list are located as they would be one by one. -/
theorem locateAll_eq [Analytic α] (fig : Figure α) (setting : Setting α) (ids : List String) :
    fig.locateAll setting ids = ids.mapM (fig.locate setting) :=
  Passage.result_each _ ids

/-! ## What a step tells of its answers -/

section Answers

variable {look : String → Except Fault (Vec α)}

theorem pairBy_eq_ok {a b : String} {make : Vec α → Vec α → Vec α} {v : Vec α}
    (h : pairBy look a b make = .ok v) : ∀ id ∈ [a, b], ∃ w, look id = .ok w := by
  obtain ⟨p, hp, h⟩ := bind_eq_ok.mp h
  obtain ⟨q, hq, -⟩ := bind_eq_ok.mp h
  intro id hid
  rcases List.mem_pair.mp hid with rfl | rfl
  · exact ⟨p, hp⟩
  · exact ⟨q, hq⟩

theorem pairBy_eq_error {a b : String} {make : Vec α → Vec α → Vec α} {fault : Fault}
    (h : pairBy look a b make = .error fault) : ∃ id ∈ [a, b], look id = .error fault := by
  rcases bind_eq_error.mp h with ha | ⟨p, -, h⟩
  · exact ⟨a, by simp, ha⟩
  · rcases bind_eq_error.mp h with hb | ⟨q, -, h⟩
    · exact ⟨b, by simp, hb⟩
    · cases h

variable [Analytic α] {fig : Figure α} {setting : Setting α}

theorem turnBy_eq_ok {f : Fold α} {k : Nat} {v : Vec α}
    (h : fig.turnBy setting f k look = .ok v) :
    ∀ id ∈ f.sources k, ∃ w, look id = .ok w := by
  unfold turnBy at h
  split at h
  next => cases h
  next source hsource =>
    obtain ⟨p, hp, h⟩ := bind_eq_ok.mp h
    obtain ⟨a, ha, h⟩ := bind_eq_ok.mp h
    obtain ⟨b, hb, -⟩ := bind_eq_ok.mp h
    intro id hid
    simp only [Fold.sources, hsource, Option.toList_some, List.cons_append, List.nil_append,
      List.mem_cons, List.not_mem_nil, or_false] at hid
    rcases hid with rfl | rfl | rfl
    · exact ⟨p, hp⟩
    · exact ⟨a, ha⟩
    · exact ⟨b, hb⟩

theorem followBy_eq_ok {recipe : Recipe α} {v : Vec α}
    (h : fig.followBy setting recipe look = .ok v) :
    ∀ id ∈ recipe.points, ∃ w, look id = .ok w := by
  cases recipe with
  | vertex id => exact fun id hid => absurd hid List.not_mem_nil
  | midpoint a b | ratio a b ratio => exact pairBy_eq_ok h
  | onSegment a b param =>
      unfold followBy at h
      dsimp only at h
      split at h
      next => cases h
      next => exact pairBy_eq_ok h
  | center points =>
      obtain ⟨placed, hplaced, -⟩ := bind_eq_ok.mp h
      exact fun id hid => exists_ok_of_mapM_eq_ok hplaced hid

theorem placeBy_eq_ok {p : NamedPoint α} {v : Vec α}
    (h : fig.placeBy setting p look = .ok v) : ∀ id ∈ p.uses, ∃ w, look id = .ok w := by
  unfold placeBy at h
  unfold NamedPoint.uses
  split at h
  next => cases h
  next recipe hrecipe =>
    rw [hrecipe]
    exact followBy_eq_ok h

end Answers

/-! ## What a step finds by itself -/

/--
The faults that one step finds by itself.  It misses a parameter only if the parameter
has no value; chains and names that stand for nothing are not its concern.
-/
def Finds (fig : Figure α) (setting : Setting α) : Fault → Prop
  | .unknownParameter id => fig.parameter? setting id = none
  | .cyclic _ | .unknownPoint _ => False
  | _ => True

theorem finds_of_recipe {fig : Figure α} {setting : Setting α} {p : NamedPoint α} {fault : Fault}
    (h : p.recipe = .error fault) : fig.Finds setting fault := by
  unfold NamedPoint.recipe at h
  split at h
  all_goals try split at h
  all_goals cases h
  all_goals trivial

section Faults

variable [Analytic α] {fig : Figure α} {setting : Setting α} {fault : Fault}
  {look : String → Except Fault (Vec α)}

theorem turnBy_eq_error {f : Fold α} {k : Nat}
    (h : fig.turnBy setting f k look = .error fault) :
    fig.Finds setting fault ∨ ∃ id ∈ f.sources k, look id = .error fault := by
  unfold turnBy at h
  split at h
  next =>
    cases h
    exact Or.inl trivial
  next source hsource =>
    rcases bind_eq_error.mp h with hp | ⟨p, -, h⟩
    · exact Or.inr ⟨source, by simp [Fold.sources, hsource], hp⟩
    · rcases bind_eq_error.mp h with ha | ⟨a, -, h⟩
      · exact Or.inr ⟨f.hinge.1, by simp [Fold.sources], ha⟩
      · rcases bind_eq_error.mp h with hb | ⟨b, -, h⟩
        · exact Or.inr ⟨f.hinge.2, by simp [Fold.sources], hb⟩
        · unfold imageBy at h
          split at h
          next => cases h
          next =>
            cases h
            exact Or.inl trivial

theorem followBy_eq_error {recipe : Recipe α}
    (h : fig.followBy setting recipe look = .error fault) :
    fig.Finds setting fault ∨ ∃ id ∈ recipe.points, look id = .error fault := by
  cases recipe with
  | vertex id =>
      unfold followBy vertex at h
      dsimp only at h
      cases hvertex : fig.vertices.get? id with
      | some v =>
          rw [hvertex] at h
          cases h
      | none =>
          rw [hvertex] at h
          cases h
          exact Or.inl trivial
  | midpoint a b | ratio a b ratio => exact Or.inr (pairBy_eq_error h)
  | onSegment a b param =>
      unfold followBy at h
      dsimp only at h
      split at h
      next hnone =>
        cases h
        exact Or.inl hnone
      next => exact Or.inr (pairBy_eq_error h)
  | center points =>
      rcases bind_eq_error.mp h with hplaced | ⟨placed, -, h⟩
      · exact Or.inr (exists_error_of_mapM_eq_error hplaced)
      · cases h

theorem placeBy_eq_error {p : NamedPoint α} (h : fig.placeBy setting p look = .error fault) :
    fig.Finds setting fault ∨ ∃ id ∈ p.uses, look id = .error fault := by
  unfold placeBy at h
  unfold NamedPoint.uses
  split at h
  next fault' hrecipe =>
    cases h
    exact Or.inl (finds_of_recipe hrecipe)
  next recipe hrecipe =>
    rw [hrecipe]
    exact followBy_eq_error h

end Faults

/-! ## What a look-up asks for -/

/-- A look-up within a chain that another one asks for, with the chain that it is asked in. -/
inductive Asks (fig : Figure α) : List String × LookUp → List String × LookUp → Prop
  | turned {chain : List String} {q : LookUp} {f : Fold α} {k : Nat} {id : String}
      (href : fig.referent q = .turned f k) (hid : id ∈ f.sources k) :
      Asks fig (chain, q) (chain, ⟨false, id⟩)
  | declared {chain : List String} {q : LookUp} {p : NamedPoint α} {id : String}
      (href : fig.referent q = .declared p) (hchain : q.id ∉ chain) (hid : id ∈ p.uses) :
      Asks fig (chain, q) (chain ++ [q.id], ⟨true, id⟩)

theorem Asks.dependsOn {fig : Figure α} {chain chain' : List String} {q r : LookUp}
    (h : fig.Asks (chain, q) (chain', r)) : fig.DependsOn q r := by
  cases h with
  | turned href hid =>
      unfold DependsOn dependencies
      rw [href]
      exact List.mem_map.mpr ⟨_, hid, rfl⟩
  | declared href hchain hid =>
      unfold DependsOn dependencies
      rw [href]
      exact List.mem_map.mpr ⟨_, hid, rfl⟩

theorem answer_of_declared [Analytic α] {fig : Figure α} {setting : Setting α}
    {chain : List String} {q : LookUp} {p : NamedPoint α} (h : fig.referent q = .declared p) :
    fig.answer setting chain q =
      if q.id ∈ chain then .error (.cyclic (chain ++ [q.id]))
      else fig.placeBy setting p fun id => fig.answer setting (chain ++ [q.id]) ⟨true, id⟩ := by
  rw [answer_eq, locateBy, h]
  rfl

theorem answer_of_turned [Analytic α] {fig : Figure α} {setting : Setting α}
    {chain : List String} {q : LookUp} {f : Fold α} {k : Nat} (h : fig.referent q = .turned f k) :
    fig.answer setting chain q =
      fig.turnBy setting f k fun id => fig.answer setting chain ⟨false, id⟩ := by
  rw [answer_eq, locateBy, h]

section Steps

variable [Analytic α] {fig : Figure α} {setting : Setting α} {chain : List String} {q : LookUp}

/-- A look-up that is answered has an answer for each of its dependencies. -/
theorem exists_asks_of_answer_eq_ok {v : Vec α} (h : fig.answer setting chain q = .ok v)
    {r : LookUp} (hr : fig.DependsOn q r) :
    ∃ chain' w, fig.Asks (chain, q) (chain', r) ∧ fig.answer setting chain' r = .ok w := by
  unfold DependsOn dependencies at hr
  split at hr
  next f k href =>
    obtain ⟨id, hid, rfl⟩ := List.mem_map.mp hr
    rw [answer_of_turned href] at h
    obtain ⟨w, hw⟩ := turnBy_eq_ok h id hid
    exact ⟨chain, w, .turned href hid, hw⟩
  next p href =>
    obtain ⟨id, hid, rfl⟩ := List.mem_map.mp hr
    rw [answer_of_declared href] at h
    split at h
    next => cases h
    next hchain =>
      obtain ⟨w, hw⟩ := placeBy_eq_ok h id hid
      exact ⟨chain ++ [q.id], w, .declared href hchain hid, hw⟩
  all_goals exact absurd hr List.not_mem_nil

/--
A fault is found by the step itself, or at a point of the chain, or at a name that stands
for nothing, or it is that of a look-up that is asked for.
-/
theorem answer_eq_error {fault : Fault} (h : fig.answer setting chain q = .error fault) :
    fig.Finds setting fault ∨
      (∃ p, fig.referent q = .declared p ∧ q.id ∈ chain ∧ fault = .cyclic (chain ++ [q.id])) ∨
      (fig.referent q = .unknown ∧ fault = .unknownPoint q.id) ∨
      ∃ chain' r, fig.Asks (chain, q) (chain', r) ∧
        fig.answer setting chain' r = .error fault := by
  cases href : fig.referent q with
  | turned f k =>
      rw [answer_of_turned href] at h
      rcases turnBy_eq_error h with hfinds | ⟨id, hid, hfail⟩
      · exact Or.inl hfinds
      · exact Or.inr (Or.inr (Or.inr ⟨chain, ⟨false, id⟩, .turned href hid, hfail⟩))
  | declared p =>
      rw [answer_of_declared href] at h
      split at h
      next hchain =>
        cases h
        exact Or.inr (Or.inl ⟨p, rfl, hchain, rfl⟩)
      next hchain =>
        rcases placeBy_eq_error h with hfinds | ⟨id, hid, hfail⟩
        · exact Or.inl hfinds
        · exact Or.inr (Or.inr (Or.inr
            ⟨chain ++ [q.id], ⟨true, id⟩, .declared href hchain hid, hfail⟩))
  | unknown =>
      rw [answer_eq, locateBy, href] at h
      cases h
      exact Or.inr (Or.inr (Or.inl ⟨rfl, rfl⟩))
  | origin | vertex v =>
      rw [answer_eq, locateBy, href] at h
      cases h

end Steps

/-! ## How far look-ups go -/

/-- A bound for the look-ups that are asked for one within another. -/
def depth (fig : Figure α) (chain : List String) (q : LookUp) : Nat :=
  2 * fig.unplaced chain + q.folding.toNat

theorem Asks.depth_lt {fig : Figure α} {chain chain' : List String} {q r : LookUp}
    (h : fig.Asks (chain, q) (chain', r)) : fig.depth chain' r < fig.depth chain q := by
  unfold depth
  cases h with
  | turned href hid =>
      -- a fold is only entered with regard to folds, and left without
      rw [(referent_eq_turned_iff.mp href).2.1]
      simp
  | declared href hchain hid =>
      have hlt := unplaced_lt (referent_eq_declared_iff.mp href).2.2.2 hchain
      simp only [Bool.toNat_true]
      omega

theorem depth_le (fig : Figure α) (q : LookUp) :
    fig.depth [] q ≤ 2 * fig.model.points.length + 1 := by
  have hunplaced : fig.unplaced [] ≤ fig.model.points.length := List.countP_le_length
  have hfolding := Bool.toNat_le q.folding
  unfold depth
  omega

end Figure

end Storyboard
