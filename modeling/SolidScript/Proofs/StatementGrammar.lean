import SolidScript.Proofs.Peg
import SolidScript.Script.Statement

/-!
# The grammar of statements

A line holds one statement or none. What a match means is read from its pairs.
-/

namespace SolidScript.Script

open Peg

inductive Rule where
  | line
  | statement
  | binding
  | keyword
  | call
  | args
  | arg
  | named
  | value
  | list
  | reference
  | selector
  | face
  | allEdges
  | edge
  | number
  | integer
  | boolean
  | string
  | text
  | ident
  | identChar
  | blank
  | comment
  | lineEnd
  | textEnd
deriving DecidableEq

namespace Rule

def lit (word : String) : Expr Rule := .literal word.toList

def digit : Expr Rule := .one Char.isDigit

def caseless (letter : Char) : Expr Rule := .one fun c => c == letter || c == letter.toUpper

def kind : Rule → Kind
  | args | selector | identChar | blank | comment | lineEnd => .silent
  | keyword | number | integer | boolean | text | ident => .atomic
  | string => .compound
  | _ => .normal

def commaSeparated (e : Expr Rule) : Expr Rule := e.seq ((Expr.many ((lit ",").seq e)).seq (lit ",").option)

def body : Rule → Expr Rule
  | blank => (lit " ").choice ((lit "\t").choice (lit "\r"))
  | lineEnd => (lit "\n").choice ((lit "\r\n").choice (lit "\r"))
  | comment => (lit "//").seq (.many ((Expr.rule lineEnd).absent.seq .any))
  | textEnd => Expr.any.absent
  | line => Expr.start.seq (((Expr.rule statement).seq (lit ";").option).option.seq (.rule textEnd))
  | statement => (Expr.rule binding).option.seq (.rule call)
  | binding => ((Expr.rule keyword).seq ((Expr.rule ident).seq (lit "="))).choice ((Expr.rule ident).seq (lit "="))
  | keyword => ((lit "let").choice (lit "const")).seq (Expr.rule identChar).absent
  | call => (Expr.rule ident).seq ((lit "(").seq ((Expr.rule args).option.seq (lit ")")))
  | args => commaSeparated (.rule arg)
  | arg => (Expr.rule named).choice (.rule value)
  | named => (Expr.rule ident).seq (((lit ":").choice (lit "=")).seq (.rule value))
  | value => (Expr.rule number).choice ((Expr.rule boolean).choice ((Expr.rule string).choice
      ((Expr.rule list).choice (.rule reference))))
  | list => (lit "[").seq ((commaSeparated (.rule value)).option.seq (lit "]"))
  | reference => (Expr.rule ident).seq (Expr.rule selector).option
  | selector => (lit ".").seq ((Expr.rule face).choice ((Expr.rule allEdges).choice (.rule edge)))
  | face => (lit "face").seq ((lit ".").seq (.rule ident))
  | allEdges => (lit "edges").choice ((lit "edge").seq ((lit "[").seq ((lit "*").seq (lit "]"))))
  | edge => (lit "edge").seq ((lit "[").seq ((Expr.rule integer).seq (lit "]")))
  | number =>
    let plain := digit.many1.seq ((lit ".").seq digit.many).option
    let pointed := (lit ".").seq digit.many1
    let exponent := (caseless 'e').seq (((lit "+").choice (lit "-")).option.seq digit.many1)
    ((lit "+").choice (lit "-")).option.seq ((plain.choice pointed).seq exponent.option)
  | integer => (lit "-").option.seq digit.many1
  | boolean => ((lit "true").choice (lit "false")).seq (Expr.rule identChar).absent
  | string => (lit "\"").seq ((Expr.rule text).seq (lit "\""))
  | text => .many ((lit "\"").absent.seq .any)
  | ident => ((Expr.one Char.isAlpha).choice (lit "_")).seq (.many (.rule identChar))
  | identChar => (Expr.one Char.isAlphanum).choice (lit "_")

end Rule

/-- Blanks and comments in any order. -/
def statementGrammar : Peg.Grammar Rule where
  kind := Rule.kind
  body := Rule.body
  gap := (Expr.rule .blank).star.join ((Expr.rule .comment).join (Expr.rule .blank).star).star

/-! ## Meanings -/

namespace Meaning

def selector? : List (Pair Rule) → Option Selector
  | [] => some .whole
  | .node .face _ (.node _ name _ :: _) :: _ => some (.face (String.ofList name))
  | .node .allEdges _ _ :: _ => some .allEdges
  | .node .edge _ (.node _ index _ :: _) :: _ => some (.edge (String.ofList index))
  | _ => none

mutual

def term? : Pair Rule → Option Term
  | .node .value _ (p :: _) => term? p
  | .node .number literal _ => some (.number (String.ofList literal))
  | .node .boolean word _ => some (.boolean (word = "true".toList))
  | .node .string _ (.node _ content _ :: _) => some (.text (String.ofList content))
  | .node .list _ items => (terms? items).map .list
  | .node .reference _ (.node _ name _ :: part) => (selector? part).map (.reference (String.ofList name))
  | _ => none

def terms? : List (Pair Rule) → Option (List Term)
  | [] => some []
  | p :: rest => do return (← term? p) :: (← terms? rest)

end

def argument? : Pair Rule → Option Argument
  | .node .arg _ (.node .named _ (.node _ name _ :: value :: _) :: _) =>
    (term? value).map (⟨some (String.ofList name), ·⟩)
  | .node .arg _ (value :: _) => (term? value).map (⟨none, ·⟩)
  | _ => none

def boundName? (p : Pair Rule) : Option String :=
  match p with
  | .node .binding _ inner => inner.findSome? fun
    | .node .ident name _ => some (String.ofList name)
    | _ => none
  | _ => none

def statement? : List (Pair Rule) → Option Statement
  | [.node .call _ (.node _ callee _ :: arguments)] =>
    (arguments.mapM argument?).map (⟨none, String.ofList callee, ·⟩)
  | [binding, .node .call _ (.node _ callee _ :: arguments)] => do
    let name ← boundName? binding
    return ⟨some name, String.ofList callee, ← arguments.mapM argument?⟩
  | _ => none

/-- A line without a statement has a meaning, too. -/
def line? : List (Pair Rule) → Option (Option Statement)
  | [.node .line _ (.node .statement _ parts :: _)] => (statement? parts).map some
  | [.node .line _ _] => some none
  | _ => none

end Meaning

end SolidScript.Script
