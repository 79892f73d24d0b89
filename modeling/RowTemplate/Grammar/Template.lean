import RowTemplate.Grammar.Expr
import RowTemplate.Template.Scan

/-! The grammar of templates, and the nodes that a tree of it stands for. -/

namespace RowTemplate.Template

/-- The rules of the grammar of templates. -/
inductive Rule
  | reserved
  | tagName
  | listName
  | tag
  | blockClose
  | blockBody
  | block
  | literal
  | template
  | finish
  deriving DecidableEq

open Grammar (Expr Mode Pair)

/-- A choice between several texts. -/
def oneOf : List (List Char) → Expr Rule
  | [] => .not (.literal [])
  | [text] => .literal text
  | text :: rest => .alt (.literal text) (oneOf rest)

/-- Expressions one after the other. -/
def inOrder : List (Expr Rule) → Expr Rule
  | [] => .literal []
  | [e] => e
  | e :: rest => .seq e (inOrder rest)

/-- Any character where `e` fails. -/
def anyUnless (e : Expr Rule) : Expr Rule := .seq (.not e) .any

/-- The grammar of templates. A block remembers its list's name for its closer. -/
def grammar : Grammar Rule where
  body
    | .reserved => oneOf [['<'], ['>'], ['#'], ['/']]
    | .tagName => .many1 (anyUnless (.rule .reserved))
    | .listName => .many (anyUnless (.literal ['>']))
    | .tag => inOrder [.literal ['<'], .rule .tagName, .literal ['>']]
    | .blockClose => inOrder [.literal ['<', '/'], .peek, .literal ['>']]
    | .blockBody => .many (anyUnless (.rule .blockClose))
    | .block => inOrder [.literal ['<', '#'], .push (.rule .listName), .literal ['>'],
        .rule .blockBody, .literal ['<', '/'], .pop, .literal ['>']]
    | .literal => .alt (.literal ['<']) (.many1 (anyUnless (.literal ['<'])))
    | .template => inOrder [.start,
        .many (.alt (.rule .block) (.alt (.rule .tag) (.rule .literal))), .rule .finish]
    | .finish => .finish
  mode
    | .reserved | .blockClose => .silent
    | .tagName | .listName | .blockBody | .literal => .atomic
    | .tag | .block | .template | .finish => .normal

/-- The name of a tag among its parts, empty if there is none. -/
def tagNameOf : List (Pair Rule) → List Char
  | [] => []
  | .mk .tagName _ name _ :: _ => name
  | _ :: rest => tagNameOf rest

/-- The name and the body of a block among its parts, where no part of another kind can stand. -/
def blockOf? (list body : List Char) : List (Pair Rule) → Option Node
  | [] => some (.block (.ofList list) (.ofList body))
  | .mk .listName _ text _ :: rest => blockOf? text body rest
  | .mk .blockBody _ text _ :: rest => blockOf? list text rest
  | _ => none

/-- The node that a pair stands for. -/
def nodeOfPair? : Pair Rule → Option Node
  | .mk .literal _ text _ => some (.text (.ofList text))
  | .mk .tag _ _ parts => some (.tag (.ofList (tagNameOf parts)))
  | .mk .block _ _ parts => blockOf? [] [] parts
  | _ => none

/-- The nodes of pairs, after nodes in reverse order. Where these end in text, `textStart` is where it
starts, and literal text makes it a longer stretch of the template. -/
def collect? (template : List Char) (textStart : Option Nat) (nodes : List Node) :
    List (Pair Rule) → Option (List Node)
  | [] => some nodes.reverse
  | .mk .finish _ _ _ :: rest => collect? template textStart nodes rest
  | .mk .literal start text parts :: rest =>
      match textStart, nodes with
      | some first, _ :: earlier =>
          let longer := .text (.ofList (template.extract first (start + text.length)))
          collect? template textStart (longer :: earlier) rest
      | some _, [] => collect? template textStart [] rest
      | none, nodes => do
          let node ← nodeOfPair? (.mk .literal start text parts)
          collect? template (some start) (node :: nodes) rest
  | pair :: rest => do collect? template none ((← nodeOfPair? pair) :: nodes) rest

/-- The nodes that a tree of the grammar stands for: those of the parts of its first pair. -/
def nodesOfPairs? (template : List Char) : List (Pair Rule) → Option (List Node)
  | [] => some []
  | .mk _ _ _ parts :: _ => collect? template none [] parts

end RowTemplate.Template
