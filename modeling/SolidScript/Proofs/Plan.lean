import SolidScript.Model.Plan

/-! # What plans read, change and report

Each kind of entry is planned by a function of its own. One rule for each of the steps that they share
is enough to say of all of them what a plan changes, and which name is missed when there is none.
-/

namespace SolidScript.Plan

variable {β γ : Type}

/-! ## Steps of planning -/

/-- What holds of the result, or of the name that is missed. -/
def Ends (good : β → Prop) (missed : String → Prop) : Except Refusal β → Prop
  | .ok b => good b
  | .error (.missing reference) => missed reference
  | .error (.failed _) => True

variable {good : β → Prop} {missed : String → Prop}

theorem Ends.bind {good' : γ → Prop} {x : Except Refusal β} {f : β → Except Refusal γ}
    (hx : Ends good missed x) (hf : ∀ b, good b → Ends good' missed (f b)) :
    Ends good' missed (x >>= f) := by
  match x, hx with
  | .ok b, h => exact hf b h
  | .error (.missing _), h => exact h
  | .error (.failed _), _ => trivial

theorem Ends.mono {good' : β → Prop} {x : Except Refusal β} (hx : Ends good missed x)
    (h : ∀ b, good b → good' b) : Ends good' missed x := by
  match x, hx with
  | .ok b, hb => exact h b hb
  | .error (.missing _), hr => exact hr
  | .error (.failed _), _ => trivial

theorem op_ends (x : Except (OperatorError Float) β) : Ends (fun _ => True) missed (op x) := by
  cases x <;> trivial

theorem throw_ends (e : OperatorError Float) (f : γ → Except Refusal β) :
    Ends good missed (throw (.failed e) >>= f) := True.intro

def Lacks (g : ArtifactGraph Float) (names : List String) (reference : String) : Prop :=
  reference ∈ names ∧ g.mesh? reference = none

theorem source_ends (g : ArtifactGraph Float) {id : String} {names : List String} (hid : id ∈ names) :
    Ends (fun m => g.mesh? id = some m.1) (Lacks g names) (source g id) := by
  unfold source
  split
  · rename_i mesh origin h
    show (g.get? id >>= Artifact.geometry) = some mesh
    rw [h]; rfl
  · rename_i hno
    refine ⟨hid, ?_⟩
    show (g.get? id >>= Artifact.geometry) = none
    match h : g.get? id with
    | none => rfl
    | some ⟨_, none, _⟩ => rfl
    | some ⟨name, some mesh, origin⟩ => exact absurd h (hno name mesh origin)

/-! ## Reports -/

def Adjustment : Finding → Prop
  | .clamped .. | .edgeOutOfRange _ => True
  | _ => False

def Adjusts (notes : List Finding) : Prop := ∀ n ∈ notes, Adjustment n

theorem Adjusts.append {notes more : List Finding} (h : Adjusts notes) (h' : Adjusts more) :
    Adjusts (notes ++ more) := fun n hn => (List.mem_append.mp hn).elim (h n) (h' n)

theorem adjusts_nil : Adjusts [] := by simp [Adjusts]

theorem adjusts_clampNote (parameter : String) (requested applied : Float) :
    Adjusts (clampNote parameter requested applied) := by
  unfold clampNote
  split <;> simp [Adjusts, Adjustment]

theorem adjusts_edgeNote (edges : EdgeSelection) : Adjusts (edgeNote edges) := by
  unfold edgeNote
  split
  · split <;> simp [Adjusts, Adjustment]
  · exact adjusts_nil

/-! ## Plans -/

def Makes (id : String) (hidden : List String) (plan : Plan) : Prop :=
  (∃ mesh origin, plan.change = .create ⟨id, some mesh, origin⟩ hidden) ∧ Adjusts plan.notes

def Reshapes (id : String) (plan : Plan) : Prop :=
  (∃ mesh origin, plan.change = .update id mesh origin) ∧ Adjusts plan.notes

theorem makes_create {id : String} {mesh : Mesh Float} {notes : List Finding} (h : Adjusts notes) :
    Makes id [] (create id mesh notes) := ⟨⟨mesh, none, rfl⟩, h⟩

theorem reshapes_update {id : String} {mesh : Mesh Float} {origin : OriginChange} {notes : List Finding}
    (h : Adjusts notes) : Reshapes id ⟨.update id mesh origin, notes⟩ := ⟨⟨mesh, origin, rfl⟩, h⟩

theorem primitive_ends (id : String) (p : Primitive Float) :
    Ends (Makes id []) missed (primitive id p) := by
  unfold primitive
  split
  · trivial
  · exact (op_ends _).bind fun mesh _ => ⟨⟨mesh, some p, rfl⟩, adjusts_nil⟩

theorem create_ends (id : String) (x : Except (OperatorError Float) (Mesh Float)) {notes : List Finding}
    (h : Adjusts notes) : Ends (Makes id []) missed (do return create id (← op x) notes) :=
  (op_ends x).bind fun _ _ => makes_create h

theorem loft_ends (id : String) (sections : List (List (Vec2 Float))) (heights : List Float) :
    Ends (Makes id []) missed (loft id sections heights) := by
  apply create_ends
  intro n hn
  obtain ⟨⟨⟨requested, applied⟩, i⟩, -, hn⟩ := List.mem_flatMap.mp hn
  exact adjusts_clampNote _ _ _ n hn

theorem torus_ends (config : Config) (id : String) (major minor : Float) (center : Vec3 Float)
    (segments tubeSegments : Option Nat) :
    Ends (Makes id []) missed (torus config id major minor center segments tubeSegments) := by
  unfold torus
  refine (op_ends _).bind fun _ _ => (op_ends _).bind fun _ _ => ?_
  split
  rename_i ring tube _
  have hnotes := (adjusts_clampNote "major_radius" major.abs ring).append
    (adjusts_clampNote "minor_radius" minor.abs tube)
  dsimp only
  split
  · exact throw_ends _ _
  · generalize Round.buildTorus ring tube center _ _ = mesh
    exact create_ends id mesh hnotes

theorem boolean_ends (backend : BooleanBackend Float) (g : ArtifactGraph Float) (id : String)
    (kind : BooleanKind) (first second : String) :
    Ends (Makes id [first, second]) (Lacks g [first, second]) (boolean backend g id kind first second) := by
  unfold boolean
  refine (source_ends g (by simp)).bind fun _ _ => (source_ends g (by simp)).bind fun _ _ => ?_
  exact (op_ends _).bind fun mesh _ => ⟨⟨mesh, none, rfl⟩, adjusts_nil⟩

section Source

variable (g : ArtifactGraph Float) (id : String)

theorem extrude_ends (face : Face) (distance : Float) :
    Ends (Reshapes id) (Lacks g [id]) (extrude g id face distance) := by
  unfold extrude
  refine (source_ends g (by simp)).bind ?_
  rintro ⟨_, origin⟩ -
  cases origin with
  | none => trivial
  | some p =>
    exact (op_ends _).bind fun r _ => (op_ends _).bind fun mesh _ =>
      reshapes_update (adjusts_clampNote _ _ _)

theorem treat_ends (operation : String) (edges : EdgeSelection) (t : EdgeTreatment Float) (amount : Float) :
    Ends (Reshapes id) (Lacks g [id]) (treat operation g id edges t amount) := by
  unfold treat
  refine (source_ends g (by simp)).bind fun _ _ => (op_ends _).bind fun _ _ => ?_
  exact (op_ends _).bind fun _ _ => (op_ends _).bind fun _ _ =>
    reshapes_update ((adjusts_edgeNote _).append (adjusts_clampNote _ _ _))

theorem shell_ends (thickness : Float) (openFaces : List Face) :
    Ends (Reshapes id) (Lacks g [id]) (shell g id thickness openFaces) := by
  unfold shell
  refine (source_ends g (by simp)).bind ?_
  rintro ⟨mesh, origin⟩ -
  dsimp only
  split
  · exact (op_ends _).bind fun _ _ => (op_ends _).bind fun _ _ =>
      reshapes_update (adjusts_clampNote _ _ _)
  · exact (op_ends _).bind fun _ _ => (op_ends _).bind fun _ _ =>
      reshapes_update (adjusts_clampNote _ _ _)
  · exact (op_ends _).bind fun _ _ => (op_ends _).bind fun _ _ =>
      reshapes_update (adjusts_clampNote _ _ _)
  · exact (op_ends _).bind fun _ _ => reshapes_update (adjusts_clampNote _ _ _)

theorem transform_ends (motion : Vec3 Float → Transform Float) (pivot : Option (Vec3 Float)) :
    Ends (Reshapes id) (Lacks g [id]) (transform g id motion pivot) := by
  unfold transform
  refine (source_ends g (by simp)).bind fun _ _ => ?_
  exact (op_ends _).bind fun _ _ => reshapes_update adjusts_nil

theorem reshape_ends (f : Mesh Float → Except (OperatorError Float) (Mesh Float)) :
    Ends (Reshapes id) (Lacks g [id]) (reshape g id f) := by
  unfold reshape
  refine (source_ends g (by simp)).bind fun _ _ => ?_
  exact (op_ends _).bind fun _ _ => reshapes_update adjusts_nil

theorem draft_ends (angle : Float) (direction : Vec3 Float) (neutral : Option Float) :
    Ends (Reshapes id) (Lacks g [id]) (draft g id angle direction neutral) := by
  unfold draft
  refine (source_ends g (by simp)).bind fun _ _ => ?_
  exact (op_ends _).bind fun _ _ => reshapes_update (adjusts_clampNote _ _ _)

end Source

/-! ## Plans of entries -/

/-- A generative entry makes the solid of its name and hides its sources. Any other entry changes its
one source. -/
def Fits (e : Entry) (plan : Plan) : Prop :=
  (e.isGenerative = true ∧ Makes e.id e.sources plan) ∨
  (e.isGenerative = false ∧ ∃ id, e.sources = [id] ∧ Reshapes id plan)

theorem ofEntry_ends (config : Config) (backend : BooleanBackend Float) (g : ArtifactGraph Float) (e : Entry) :
    Ends (Fits e) (Lacks g e.sources) (ofEntry config backend g e) := by
  obtain ⟨id, line, operation⟩ := e
  have makes {x : Except Refusal Plan} (hgen : operation.isGenerative = true)
      (h : Ends (Makes id operation.sources) (Lacks g operation.sources) x) :
      Ends (Fits ⟨id, line, operation⟩) (Lacks g operation.sources) x :=
    h.mono fun plan hplan => Or.inl ⟨hgen, hplan⟩
  have reshapes {x : Except Refusal Plan} {source : String} (hgen : operation.isGenerative = false)
      (hsource : operation.sources = [source]) (h : Ends (Reshapes source) (Lacks g [source]) x) :
      Ends (Fits ⟨id, line, operation⟩) (Lacks g operation.sources) x :=
    hsource ▸ h.mono fun plan hplan => Or.inr ⟨hgen, source, hsource, hplan⟩
  unfold ofEntry
  cases operation with
  | primitive shape => exact makes rfl (primitive_ends id shape)
  | boolean kind first second => exact makes rfl (boolean_ends backend g id kind first second)
  | revolve | sweep | helix => exact makes rfl (create_ends id _ adjusts_nil)
  | loft sections heights => exact makes rfl (loft_ends id sections heights)
  | torus => exact makes rfl (torus_ends config id ..)
  | extrude source face distance => exact reshapes rfl rfl (extrude_ends g source face distance)
  | fillet source | chamfer source => exact reshapes rfl rfl (treat_ends g source ..)
  | shell source => exact reshapes rfl rfl (shell_ends g source ..)
  | scale source | rotate source | translate source => exact reshapes rfl rfl (transform_ends g source ..)
  | draft source => exact reshapes rfl rfl (draft_ends g source ..)
  | linearPattern source | circularPattern source | mirror source | gridPattern source
  | spiralPattern source => exact reshapes rfl rfl (reshape_ends g source _)

end SolidScript.Plan
