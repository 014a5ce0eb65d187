import Schemata.Schema.Blueprint

/-!
# Descriptions of schemas

What can be told about a schema without asking any lazy schema for its target: its class, where it
was built, what its class adds to that, and the descriptions of its children.
-/

namespace Schemata

/-- What a schema holds besides children. -/
inductive Detail where
  | none
  | strict (b : Bool)
  | value (v : Value)
  | values (vs : List Value)
  | default (v : Value)
  | function (f : Function)

structure Description where
  schemaClass : SchemaClass
  label : String
  detail : Detail

/-- A description with those of the children. -/
inductive SchemaTree where
  | leaf (d : Description)
  | shape (d : Description) (children : List (String × SchemaTree))
  /-- One child under each of some names. -/
  | named (d : Description) (children : List (String × SchemaTree))
  /-- Several children under one name. -/
  | several (d : Description) (name : String) (children : List SchemaTree)

namespace Schema

def detail : Schema → Detail
  | leaf _ (.string strict) => .strict strict
  | leaf _ (.number strict) => .strict strict
  | leaf _ (.integer strict) => .strict strict
  | leaf _ (.boolean strict) => .strict strict
  | leaf _ (.literal v) => .value v
  | leaf _ (.enum vs) => .values vs
  | leaf _ (.transform f) => .function f
  | wrapper _ (.default v) _ => .default v
  | _ => .none

end Schema

namespace Workshop

def describe (w : Workshop) (s : Schema) : Description :=
  { schemaClass := s.schemaClass, label := w.label s, detail := s.detail }

mutual

/-- The description of a schema with those of its children. -/
def tree (w : Workshop) : Schema → SchemaTree
  | s@(.leaf ..) => .leaf (w.describe s)
  | s@(.lazy _) => .leaf (w.describe s)
  | s@(.object _ shape) => .shape (w.describe s) (treeOfShape w shape)
  | s@(.array _ element) => .named (w.describe s) [("element", tree w element)]
  | s@(.record _ key value) =>
    .named (w.describe s) [("key", tree w key), ("value", tree w value)]
  | s@(.tuple _ items) => .several (w.describe s) "items" (trees w items)
  | s@(.union _ options) => .several (w.describe s) "options" (trees w options)
  | s@(.wrapper _ _ inner) => .named (w.describe s) [("inner", tree w inner)]
  | s@(.pipe _ input output) =>
    .named (w.describe s) [("input", tree w input), ("output", tree w output)]

def trees (w : Workshop) : List Schema → List SchemaTree
  | [] => []
  | s :: rest => tree w s :: trees w rest

def treeOfShape (w : Workshop) : List (String × Schema) → List (String × SchemaTree)
  | [] => []
  | (name, s) :: rest => (name, tree w s) :: treeOfShape w rest

end

end Workshop

end Schemata
