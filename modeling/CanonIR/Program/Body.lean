import CanonIR.Program.Query

/-! What the body of a region says: statements, and directives that declare nothing. -/

namespace CanonIR.Program

/-- A new statement. -/
def stmtOf (kind : StmtKind) : Edit StmtId := do
  let node ← enrollNode kind.category
  let program ← get
  let (id, stmts) ← program.stmts.push ⟨node, kind⟩
  set { program with stmts }
  return id

/-- An empty block that owns a new region in `parent`. -/
def newBlock (parent : RegionId) : Edit StmtId := do
  let region ← newRegion (some parent)
  let block ← stmtOf (.block region #[])
  ownRegion region (.stmt block)
  return block

/-- Puts `stmt` at the end of a block. -/
def appendToBlock (block stmt : StmtId) : Build Unit := do
  let program ← get
  match (← program.stmtNode block).kind with
  | .block region body =>
    let stmts ← program.stmts.modify block ({ · with kind := .block region (body.push stmt) })
    set { program with stmts }
  | _ => throw (.notABlock block)

/-- A new directive in `region`. -/
def directiveOf (region : RegionId) (kind : DirectiveKind) : Edit DirectiveId := do
  let node ← enrollNode kind.category
  let program ← get
  let (id, directives) ← program.directives.push ⟨node, region, kind⟩
  let regions ← program.regions.modify region fun entry =>
    { entry with directives := entry.directives.push id }
  set { program with directives, regions }
  return id

/-- Makes the members of a namespace visible in `region`. -/
def usingDirective (region : RegionId) (nominated : TypeId) : Build DirectiveId := do
  match (← (← get).typeNode nominated).kind with
  | .namespaceType _ => directiveOf region (.usingDirective nominated)
  | _ => throw (.notANamespace nominated)

end CanonIR.Program
