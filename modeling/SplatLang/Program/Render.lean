import SplatLang.Program
import SplatLang.Text.Script

/-!
# Trees as source text

A tree is written with one statement a line and three blanks of indentation for each level. What
a tree read from a source renders to reads back as the same tree.

A statement is rendered as a list of lines, so that a block indents every line of its statements.
A line break inside a literal, which only a tree put together by hand can hold, breaks the line
like any other.

The text has the type of the literals: characters for the trees of the parser, bytes for those
whose literals are bytes.
-/

namespace SplatLang

namespace Render

def indent : String := "   "

open Text

variable [Script ρ]

def commaJoin : List ρ → ρ
  | [] => spell ""
  | [t] => t
  | t :: rest => t ++ spell ", " ++ commaJoin rest

def indentAll (lines : List ρ) : List ρ := lines.map (spell indent ++ ·)

def unlines : List ρ → ρ
  | [] => spell ""
  | line :: rest => line ++ spell "\n" ++ unlines rest

end Render

open Render Text

variable [Script ρ]

mutual

def Expr.render : Expr ρ → ρ
  | .literal _ raw => raw
  | .var _ label => spell label
  | .binary _ left op right =>
    spell "(" ++ left.render ++ spell (" " ++ op ++ " ") ++ right.render ++ spell ")"
  | .unary _ op operand => spell ("(" ++ op ++ " ") ++ operand.render ++ spell ")"
  | .call _ label args => spell (label ++ "(") ++ commaJoin (renderAll args) ++ spell ")"

def renderAll : List (Expr ρ) → List ρ
  | [] => []
  | e :: rest => e.render :: renderAll rest

end

mutual

def Stmt.lines : Stmt ρ → List ρ
  | .assign _ label value => split (spell (label ++ " := ") ++ value.render ++ spell " ;")
  | .cond _ test body none =>
    split (spell "if " ++ test.render ++ spell " then") ++ indentAll (blockLines body) ++
      [spell "end if ;"]
  | .cond _ test body (some alt) =>
    split (spell "if " ++ test.render ++ spell " then") ++ indentAll (blockLines body) ++
      [spell "else"] ++ indentAll (blockLines alt) ++ [spell "end if ;"]
  | .loop _ test body =>
    split (spell "while " ++ test.render ++ spell " do") ++ indentAll (blockLines body) ++
      [spell "end while ;"]
  | .print _ value => split (spell "print " ++ value.render ++ spell " ;")
  | .printLine _ => [spell "print_line ;"]
  | .ret _ none => [spell "return ;"]
  | .ret _ (some value) => split (spell "return " ++ value.render ++ spell " ;")
  | .call _ label args =>
    split (spell (label ++ "(") ++ commaJoin (renderAll args) ++ spell ") ;")

def blockLines : List (Stmt ρ) → List ρ
  | [] => []
  | s :: rest => s.lines ++ blockLines rest

end

def VarDecl.signature (v : VarDecl) : String := v.label ++ " : " ++ v.ty.name

def VarDecl.render (v : VarDecl) : String := v.signature ++ " ;"

def FuncDecl.lines (f : FuncDecl ρ) : List ρ :=
  split (spell (f.label ++ "(" ++ commaJoin (f.params.map VarDecl.signature) ++ ") : " ++
      f.result.name ++ " is")) ++
    f.locals.flatMap (fun v => split (spell (indent ++ v.render))) ++
    [spell "begin"] ++ indentAll (blockLines f.body) ++ [spell "end ;"]

def Decl.lines : Decl ρ → List ρ
  | .var v => split (spell v.render)
  | .func f => f.lines

def Program.lines (p : Program ρ) : List ρ :=
  [spell "program"] ++ indentAll (p.decls.flatMap Decl.lines) ++
    [spell "begin"] ++ indentAll (blockLines p.stmts) ++ [spell "end ;"]

def Program.render (p : Program ρ) : ρ := unlines p.lines

end SplatLang
