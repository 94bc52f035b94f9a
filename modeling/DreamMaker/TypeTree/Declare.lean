import DreamMaker.Syntax.Statement
import DreamMaker.TypeTree.Builtin

namespace DreamMaker.TypeTree

/-- Segments that stand before a member of a type, not for a type. -/
def declaresMember (path : TypePath) : Bool :=
  path.segments.any fun segment => segment == "var" || segment == "proc" || segment == "verb"

/-- Adds what one declaration declares. What stands in its body is left to
the declarations there. -/
def addItem (tree : TypeTree) : Item → TypeTree
  | .object path _ => if declaresMember path then tree else tree.ensureType path
  | .proc definition => tree.addProc definition.owner definition.name
  | .var definition =>
    if definition.modifiers.isStatic || definition.owner.isRoot then
      ((tree.ensureType definition.owner).addGlobal definition.owner definition.name definition.type?
        definition.types definition.value?).2
    else
      tree.addField definition.owner
        { name := definition.name, type? := definition.type?, types := definition.types
          isConst := definition.modifiers.isConst }
  | .override owner _ _ => tree.ensureType owner
  | .group _ => tree

def addFile (tree : TypeTree) (file : SourceFile) : TypeTree :=
  file.flatten.foldl (fun tree declaration => tree.addItem declaration.item) tree

def ofFile (file : SourceFile) : TypeTree :=
  builtin.addFile file

end DreamMaker.TypeTree
