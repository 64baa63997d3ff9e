import FormLogic.Value

/-!
# `FormLogic.Context` — what a node's expressions can see

Every node of a form is described by six slots, which its expressions see as six names. A slot
shares its containers with everything else that refers to them.

## Contents
- `Context`: the slots; `Context.binding?`, `Context.bindings`: the slots by their names.
-/

namespace FormLogic

/-- The slots of a node. Only elements of arrays have the presentation of their array. -/
structure Context where
  /-- A value of the whole form. -/
  formContext : Value := .undefined
  idSchema : Value := .undefined
  schema : Value := .undefined
  /-- The presentation of the node, with its rules. -/
  uiSchema : Value := .undefined
  data : Value := .undefined
  arrayUiSchema : Option Value := none

/-- The names of the slots, in order. -/
def bindingNames : List String :=
  ["formContext", "idSchema", "schema", "uiSchema", "data", "arrayUiSchema"]

namespace Context

/-- The slot of the given name. A missing presentation of an array reads as `undefined`. -/
def binding? (ctx : Context) (name : String) : Option Value :=
  match name with
  | "formContext" => some ctx.formContext
  | "idSchema" => some ctx.idSchema
  | "schema" => some ctx.schema
  | "uiSchema" => some ctx.uiSchema
  | "data" => some ctx.data
  | "arrayUiSchema" => some (ctx.arrayUiSchema.getD .undefined)
  | _ => none

/-- The slots with their names, in order. -/
def bindings (ctx : Context) : List (String × Value) :=
  bindingNames.map fun name => (name, (ctx.binding? name).getD .undefined)

end Context

end FormLogic
