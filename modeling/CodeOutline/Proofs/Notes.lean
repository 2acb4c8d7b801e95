import CodeOutline.Proofs.Declaration.Statement
import CodeOutline.Provider

/-!
# Who leaves which notes

Reading a syntax tree and outlining what it declares leave notes about the text. Notes
about requests that came too late are left by the provider alone.
-/

namespace CodeOutline

/-- Whether a note is about a request that came too late, and not about a text. -/
def Note.isStale : Note → Bool
  | .staleOutline _ _ | .staleFailure _ _ => true
  | .unparsableRegion _ | .ignoredStatement _ | .ambiguousIdentifier _ _
  | .skippedDeclaration _ | .skippedImport _ => false

/-- A computation that leaves notes about a text only. -/
def Traced.AboutText {α : Type} (x : Traced α) : Prop :=
  x.Leaves fun note => note.isStale = false

/-! ## Reading a tree -/

namespace Node

/-- Reading a statement leaves notes about the text only. The induction is on the tree: what a
wrapper leaves are the notes of the statements inside of it. -/
theorem aboutText_statement (s : SourceText) (exported : Bool) (n : Node) :
    (statement s exported n).AboutText := by
  induction n using childrenInduction generalizing exported with
  | node n ih =>
    have hview := statementView s exported n
    generalize statement s exported n = read at hview
    cases hview with
    | nothing notes hnotes =>
      intro note hnote
      rcases List.mem_pair.mp (hnotes hnote) with rfl | rfl
      · rfl
      · rfl
    | exporting c hkind hc => exact ih c (mem_children_of_exported? hc) true
    | ambient hkind =>
      have hparts : (Traced.each (statement s exported) n.namedChildren).AboutText := by
        refine .each fun c hc => ih c ?_ exported
        exact (List.mem_filter.mp hc).1
      exact hparts.bind fun _ => .pure
    | ofImport => exact .bind .lift fun _ => .pure
    | ofClass => exact .bind .lift fun _ => .pure
    | ofInterface => exact .bind .lift fun _ => .pure
    | ofFunction => exact .bind .lift fun _ => .pure
    | ofVariables => exact .bind .lift fun _ => .pure

end Node

theorem SourceUnit.aboutText_ofTree (text : String) (tree : Node) :
    (SourceUnit.ofTree text tree).AboutText :=
  .bind (.each fun n _ => n.aboutText_statement _ false) fun _ => .pure

/-! ## Outlining a unit -/

variable (d : Document) (config : Config)

theorem Document.aboutText_locate (name : String) (offset : Int) :
    (d.locate name offset).AboutText := by
  refine .noting fun note hnote => ?_
  unfold Document.identifierNotes at hnote
  split at hnote
  · rw [List.mem_singleton.mp hnote]
    rfl
  · simp at hnote

theorem Property.aboutText_token (marker : String) (p : Property) :
    (p.token d marker).AboutText :=
  .bind .lift fun _ => .bind (d.aboutText_locate _ _) fun _ => .pure

theorem Method.aboutText_token (m : Method) : (m.token d).AboutText :=
  .bind .lift fun _ => .bind (d.aboutText_locate _ _) fun _ => .pure

theorem ClassDecl.aboutText_token (c : ClassDecl) : (c.token d config).AboutText :=
  .bind (.each fun m _ => m.aboutText_token d) fun _ =>
    .bind (.each fun p _ => p.aboutText_token d _) fun _ => .pure

theorem InterfaceDecl.aboutText_token (i : InterfaceDecl) : (i.token d config).AboutText :=
  .bind (.each fun p _ => p.aboutText_token d _) fun _ =>
    .bind (.each fun m _ => m.aboutText_token d) fun _ => .pure

theorem VariableDecl.aboutText_token (v : VariableDecl) : (v.token d config).AboutText :=
  .bind .lift fun _ => .bind (d.aboutText_locate _ _) fun _ => .pure

theorem FunctionDecl.aboutText_token (f : FunctionDecl) : (f.token d).AboutText :=
  .bind .lift fun _ => .bind (d.aboutText_locate _ _) fun _ => .pure

theorem Declaration.aboutText_token (dec : Declaration) : (dec.token d config).AboutText := by
  cases dec with
  | ofClass c => exact .bind (c.aboutText_token d config) fun _ => .pure
  | ofInterface i => exact .bind (i.aboutText_token d config) fun _ => .pure
  | ofVariable v => exact .bind (v.aboutText_token d config) fun _ => .pure
  | ofFunction f => exact .bind (f.aboutText_token d) fun _ => .pure
  | unknown => exact .noting (by simp [Note.isStale])

theorem Import.aboutText_token (i : Import) : (i.token d).AboutText := by
  unfold Import.token
  split
  · exact .pure
  · exact .noting (by simp [Note.isStale])

/-- Outlining a unit leaves notes about the text only, as its declarations and imports do. -/
theorem Outline.aboutText_ofUnit (unit : SourceUnit) : (Outline.ofUnit d config unit).AboutText :=
  .bind (.each fun dec _ => dec.aboutText_token d config) fun _ =>
    .bind (.each fun i _ => i.aboutText_token d) fun _ => .pure

/-! ## Requests -/

theorem Delivery.aboutText_sourceUnit (text : String) (δ : Delivery) :
    (δ.sourceUnit text).AboutText := by
  cases δ with
  | ofUnit unit => exact .pure
  | ofTree tree => exact SourceUnit.aboutText_ofTree text tree
  | failure reason => exact .lift

/-- What is noted on the way to the outline of a request is about its text. -/
theorem Request.aboutText_outline (r : Request) : r.outline.AboutText :=
  .bind (r.delivery.aboutText_sourceUnit _) fun _ => Outline.aboutText_ofUnit _ _ _

end CodeOutline
