import RuleWeaver.Document.Basic
import RuleWeaver.Error
import RuleWeaver.Registry.Rendering
import RuleWeaver.Snippet
import RuleWeaver.Source.Parser
import RuleWeaver.Translation.Basic

/-!
# Rendering translation files

Messages are only ever added.  They go into the message map or, in older files, as statements to the end of
`registerCustomTranslations`.
-/

namespace RuleWeaver

/-- The entries of the message map for some tags. -/
def messageEntries (l : Language) (tags : List Text) : List (Text × EntryValue) :=
  tags.map fun tag => (tag, .string (l.message tag))

/-- A translation file that did not exist. -/
def newTranslation (package : Text) (l : Language) (tags : List Text) : Text :=
  renderNodes [
    .text ("package " ++ package ++ "\n\n"),
    .imports [⟨none, "errors"⟩, ⟨none, "strings"⟩, ⟨none, l.localePath⟩, ⟨some "ut", Snippet.translatorPath⟩,
      ⟨none, Snippet.validatorPath⟩, ⟨some l.locale.label, l.locale.translations⟩],
    .text ("\nvar trans ut.Translator\n\n" ++ Snippet.messageMapComment ++ "\n" ++ Snippet.messageMapHead),
    .map ⟨[], messageEntries l tags⟩,
    .text ("\n\n" ++ Snippet.translationInit l.locale ++ "\n" ++ Snippet.translateFunctions)]

/-- What becomes of a translation file when messages for some tags are missing; `file` names it in errors. -/
def translationRendering (file : Text) (existing : Option Text) (package : Text) (l : Language) (missing : List Text)
    (translations : Translations) : Except Error Rendering :=
  match existing with
  | none => .ok (.created (newTranslation package l missing))
  | some existing =>
    if missing.isEmpty then .ok .unchanged
    else
      match translations.messageMap with
      | some m =>
        let node : Node := .map ⟨m.body existing, messageEntries l missing⟩
        .ok (.updated ((Document.ofText existing).replace ⟨m.opening, m.closing + 1⟩ node).render)
      | none =>
        match Source.parse existing with
        | .error e => .error (.source file e)
        | .ok tree =>
          match (tree.function? "registerCustomTranslations").bind (·.body) with
          | none =>
            .error (.merge file (.anchorNotFound "translationMessages map or registerCustomTranslations function"))
          | some body =>
            let close := body.stop - 1
            let ownLine : Text := if (Text.slice existing 0 close).getLast? = some '\n' then [] else "\n"
            let calls := missing.flatMap fun tag => Snippet.translationCalls tag (l.message tag)
            .ok (.updated ((Document.ofText existing).insertAt close (.text (ownLine ++ calls))).render)

end RuleWeaver
