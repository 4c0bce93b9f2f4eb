import Tabular.Yaml.Token

/-!
# YAML nodes

A document is a tree of nodes. Anchors and the aliases that refer to them are known by numbers.
-/

namespace Tabular.Yaml

/-- A scalar with its style and its tag. -/
structure Scalar where
  tag : Option Tag
  style : Style
  text : String
deriving DecidableEq

/-- A node of a document. The tag of a collection is of no account. -/
inductive Node where
  | reference (target : Nat)
  | scalar (anchor : Option Nat) (s : Scalar)
  | sequence (anchor : Option Nat) (items : List Node)
  | mapping (anchor : Option Nat) (members : List (Node × Node))

namespace Node

def anchor? : Node → Option Nat
  | reference _ => none
  | scalar a _ => a
  | sequence a _ => a
  | mapping a _ => a

mutual

/-- All nodes of a tree, each before the nodes inside it. -/
def all : Node → List Node
  | reference n => [reference n]
  | scalar a s => [scalar a s]
  | sequence a items => sequence a items :: allOfItems items
  | mapping a members => mapping a members :: allOfMembers members

def allOfItems : List Node → List Node
  | [] => []
  | n :: rest => all n ++ allOfItems rest

def allOfMembers : List (Node × Node) → List Node
  | [] => []
  | (k, v) :: rest => all k ++ all v ++ allOfMembers rest

end

/-- The node that an alias in the tree refers to: the last one with its number. -/
def target? (root : Node) (n : Nat) : Option Node :=
  (root.all.filter (·.anchor? == some n)).getLast?

def resolve? (root : Node) : Node → Option Node
  | reference n => root.target? n
  | n => some n

end Node

end Tabular.Yaml
