/-! The pieces of a template and how each one is written. A block's body is kept as text: it is
read when the block is expanded. -/

namespace RowTemplate

/-- A piece of a template. -/
inductive Node
  /-- Literal text. -/
  | text (content : String)
  /-- A tag, which stands for a scalar. -/
  | tag (name : String)
  /-- A block, which stands for its body once for each row of a list. -/
  | block (list body : String)
  deriving DecidableEq

/-- The mark that opens the block of a list. -/
def opener (list : List Char) : List Char := '<' :: '#' :: list ++ ['>']

/-- The mark that closes the block of a list. -/
def closer (list : List Char) : List Char := '<' :: '/' :: list ++ ['>']

/-- A tag as it is written. -/
def tagMark (name : List Char) : List Char := '<' :: name ++ ['>']

namespace Node

/-- A node as it is written. -/
def source : Node → List Char
  | text content => content.toList
  | tag name => tagMark name.toList
  | block list body => opener list.toList ++ body.toList ++ closer list.toList

/-- Puts a node before others; text joins the text that follows it. -/
def cons : Node → List Node → List Node
  | text s, text t :: rest => text (s ++ t) :: rest
  | node, rest => node :: rest

/-- Joins adjacent text. -/
def joinText (nodes : List Node) : List Node := nodes.foldr cons []

/-- A list of nodes as it is written. -/
def sources (nodes : List Node) : List Char := nodes.flatMap source

@[simp] theorem sources_nil : sources [] = [] := rfl

@[simp] theorem sources_cons (node : Node) (nodes : List Node) :
    sources (node :: nodes) = node.source ++ sources nodes := rfl

theorem sources_cons_eq (node : Node) (nodes : List Node) :
    sources (cons node nodes) = node.source ++ sources nodes := by
  fun_cases cons node nodes <;> simp [source]

/-- Joining text does not change how the nodes are written. -/
@[simp] theorem sources_joinText (nodes : List Node) :
    sources (joinText nodes) = sources nodes := by
  induction nodes with
  | nil => rfl
  | cons node rest ih => exact (sources_cons_eq node _).trans (congrArg (node.source ++ ·) ih)

end Node

end RowTemplate
