import Orm.Derive.Expansion

/-
The code of an expansion, as token text without blanks between the tokens.
-/

namespace Orm.Derive

open Tokens (literal)

/-- A block of code in braces. -/
def block (code : String) : String :=
  "\x7b" ++ code ++ "\x7d"

/-! ## Definitions -/

/-- The definition of the model that a type stands for. -/
def modelOf (library : String) (target : Tokens) : String :=
  "<" ++ target.text ++ "as" ++ library ++ "::model::Model>::meta"

def actionText (library : String) (a : ReferentialAction) : String :=
  library ++ "::fields::OnDelete::" ++ a.name

def relationMethod : RelationKind → String
  | .manyToOne => "many_to_one"
  | .oneToMany => "one_to_many"
  | .oneToOne => "one_to_one"
  | .manyToMany => "many_to_many"

def throughText (library : String) (t : Through Tokens) : String :=
  ".through(" ++ library ++ "::fields::Through" ++
    block ("model:" ++ modelOf library t.model ++ ",source_field:" ++ literal t.sourceField ++
      ",target_field:" ++ literal t.targetField ++ ",") ++ ")"

/-- What follows the target in the code of a relation. -/
def relationTail (library : String) (r : Relation Tokens) : String :=
  match r.kind, r.relatedField with
  | .oneToMany, related => "," ++ literal (related.getD "") ++ ",)"
  | .manyToMany, _ => ")" ++ (r.through.map (throughText library)).getD ""
  | .oneToOne, some related => ").reverse(" ++ literal related ++ ")"
  | .manyToOne, _ | .oneToOne, none =>
    ").on_delete(" ++ actionText library r.onDelete ++ ").on_update(" ++
      actionText library r.onUpdate ++ ")"

def relationText (library : String) (r : Relation Tokens) : String :=
  library ++ "::fields::Relation::" ++ relationMethod r.kind ++ "(" ++ modelOf library r.target ++
    relationTail library r

def Step.text (library : String) : Step → String
  | .column name => ".column(" ++ literal name ++ ")"
  | .relation r => ".relation(" ++ relationText library r ++ ",)"
  | .primaryKey => ".primary_key()"
  | .unique => ".unique()"
  | .auto => ".auto()"
  | .maxLength n => ".max_length(" ++ toString n ++ "usize)"
  | .nullable => ".nullable()"

def Definition.text (library : String) (d : Definition) : String :=
  library ++ "::fields::FieldDef::new(" ++ literal d.name ++ "," ++ library ++
    "::fields::FieldType::" ++ d.type.name ++ ")" ++ String.join (d.steps.map (Step.text library))

/-! ## Methods -/

def Method.name : Method → String
  | .getValue => "get_value"
  | .setValue => "set_value"
  | .related => "related"
  | .relatedMut => "related_mut"
  | .setRelated => "set_related"
  | .relatedMany => "related_many"
  | .relatedManyMut => "related_many_mut"
  | .pushRelated => "push_related"

/-- Whether a method goes on behind its arms, so that a refusal has to return from it. -/
def Method.goesOn : Method → Bool
  | .setValue | .setRelated | .pushRelated => true
  | _ => false

def Action.text (library field : String) : Action → String
  | .readColumn => "Ok(" ++ library ++ "::Value::from(" ++ place ++ ".clone()))"
  | .writeColumn => place ++ "=" ++ library ++ "::value::from_value_or_default(&value)?"
  | .readKey =>
    place ++ ".as_ref().map_or(Ok(" ++ library ++ "::Value::Null),|r|r.pk_value())"
  | .writeKey =>
    block ("ifvalue.is_null()" ++ block (place ++ "=None;") ++ "else" ++
      block (place ++ ".get_or_insert_with(::std::default::Default::default).set_pk_value(value)?;"))
  | .lend boxed mutable =>
    "Ok(" ++ place ++ (if boxed then ".as_deref" else if mutable then ".as" else ".as_ref") ++
      (if mutable then "_mut" else "") ++ "()" ++ lent mutable ++ ")"
  | .assign target boxed =>
    block (place ++ "=related.map(|r|r.downcast::<" ++ target.text ++ ">()).transpose()?" ++
      (if boxed then ".map(::std::boxed::Box::new)" else "") ++ ";")
  | .lendAll mutable =>
    "Ok(" ++ place ++ (if mutable then ".iter_mut()" else ".iter()") ++ lent mutable ++ ".collect())"
  | .append target => place ++ ".push(related.downcast::<" ++ target.text ++ ">()?)"
where
  place : String := "self." ++ field
  lent (mutable : Bool) : String :=
    ".map(|r|ras&" ++ (if mutable then "mut" else "") ++ "dyn" ++ library ++ "::model::Model)"

namespace Expansion

def libraryText (e : Expansion) : String := e.library.text

/-- How the name of a field that a method does not recognise is refused. -/
def refusal (e : Expansion) (m : Method) : String :=
  (if m.goesOn then "return" else "") ++ "Err(" ++ e.libraryText ++ "::OrmError::unknown_field(" ++
    literal e.table ++ ",field))"

/-- The patterns of a method with what it does for each. -/
def armTexts (e : Expansion) (m : Method) : List (String × String) :=
  (e.arms m).map (fun (name, action) => (literal name, action.text e.libraryText name)) ++
    [("_", e.refusal m)]

/-- The methods that do not look at a field's name. -/
def blockTexts (e : Expansion) : List (String × String) :=
  ("definitions", block ("<Selfas" ++ e.libraryText ++ "::model::Model>::meta()")) ::
    match e.computed? with
    | none => []
    | some field =>
      [("annotation", block ("self." ++ field ++ ".get(alias)")),
       ("set_annotation", block ("self." ++ field ++ ".insert(alias.to_string(),value);Ok(())"))]

def useText (e : Expansion) : String :=
  "use" ++ e.libraryText ++ "::model::Modelas_;"

/-- The code that makes an empty instance. -/
def factoryText (e : Expansion) : String :=
  "||::std::boxed::Box::new(<" ++ e.name ++ "as::std::default::Default>::default())"

def definitionTexts (e : Expansion) : List String :=
  e.definitions.map (Definition.text e.libraryText)

end Expansion

end Orm.Derive
