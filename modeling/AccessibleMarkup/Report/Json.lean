import AccessibleMarkup.Json.Printer
import AccessibleMarkup.Report.Basic

/-! Reports as JSON. Members that say nothing are left out. -/
namespace AccessibleMarkup

def Json.unlessEmpty (key : String) (items : List Json) : List (String × Json) :=
  if items.isEmpty then [] else [(key, .array items)]

def Json.ifGiven (key : String) (text : Option String) : List (String × Json) :=
  text.toList.map fun text => (key, .string text)

def Location.toJson (location : Location) : Json :=
  .object (Json.ifGiven "file" location.file ++
    [("line", .number location.line), ("column", .number location.column),
      ("offset", .number location.offset), ("length", .number location.length)])

def Fix.toJson : Fix → Json
  | addAttribute name value =>
    .object [("kind", .string "add-attribute-if-absent"), ("name", .string name),
      ("value", .string value)]
  | setAttribute name value =>
    .object [("kind", .string "set-attribute-value"), ("name", .string name),
      ("value", .string value)]
  | removeAttribute name => .object [("kind", .string "remove-attribute"), ("name", .string name)]
  | wrap tag attributes =>
    .object [("kind", .string "wrap-range"), ("tag", .string tag),
      ("attrs", .array (attributes.map fun (name, value) =>
        .array [.string name, .string value]))]
  | remove => .object [("kind", .string "remove-range")]
  | rename name => .object [("kind", .string "rename-tag"), ("new_name", .string name)]

def Suggestion.toJson (suggestion : Suggestion) : Json :=
  .object (("message", .string suggestion.message) ::
    suggestion.fix.toList.map fun fix => ("fix", fix.toJson))

def Label.toJson (label : Label) : Json :=
  .object [("location", label.location.toJson), ("message", .string label.message)]

def Violation.toJson (violation : Violation) : Json :=
  .object ([("code", .string violation.code), ("rule", .string violation.rule),
    ("severity", .string violation.severity.name), ("location", violation.location.toJson),
    ("message", .string violation.message)] ++
    Json.unlessEmpty "suggestions" (violation.suggestions.map (·.toJson)) ++
    Json.unlessEmpty "labels" (violation.labels.map (·.toJson)) ++
    Json.ifGiven "doc_ref" violation.docRef)

def Report.toJson (report : Report) : Json :=
  .object ([("violations", .array (report.violations.map (·.toJson))),
    ("files_checked", .number report.filesChecked)] ++
    Json.unlessEmpty "faulted_rules" (report.faultedRules.map .string))

end AccessibleMarkup
