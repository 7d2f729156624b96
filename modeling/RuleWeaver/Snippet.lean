import RuleWeaver.Text.Quoted
import RuleWeaver.Translation.Language

/-!
# Snippets

The code that goes into registry, translation and types files.
-/

namespace RuleWeaver.Snippet

open Text (quote)

/-- Lines, each with its line break. -/
def lines (ls : List String) : Text := ls.flatMap fun l => l.toList ++ ['\n']

/-- The import path of the validation engine. -/
def validatorPath : Text := "github.com/go-playground/validator/v10"

/-- The import path of the translator. -/
def translatorPath : Text := "github.com/go-playground/universal-translator"

/-- The declaration of the validator that a package shares. -/
def validatorDeclaration : Text := "var validate = validator.New()"

/-! ### Registry files -/

def ruleMapComment : Text := "// registerValidation maps every validation tag to its implementation."

/-- The beginning of the rule map, up to its opening brace. -/
def ruleMapHead : Text := "var registerValidation = map[string]validator.Func"

/-- Registers all entries of the rule map. -/
def registerAll : Text := lines [
  "// init registers every entry of registerValidation with the shared validator.",
  "func init() \x7b",
  "\tfor tag, fn := range registerValidation \x7b",
  "\t\t_ = validate.RegisterValidation(tag, fn)",
  "\t\x7d",
  "\x7d"]

def mobileFunction : Text := lines [
  "// validateMobile reports whether the field holds a mainland China mobile number.",
  "func validateMobile(fl validator.FieldLevel) bool \x7b",
  "\tmatch, _ := regexp.MatchString(`^1[3-9]\\d\x7b9\x7d$`, fl.Field().String())",
  "\treturn match",
  "\x7d"]

def idCardFunction : Text := lines [
  "// validateIdCard reports whether the field holds a 15 or 18 digit ID card number.",
  "func validateIdCard(fl validator.FieldLevel) bool \x7b",
  "\tmatch, _ := regexp.MatchString(`(^\\d\x7b15\x7d$)|(^\\d\x7b18\x7d$)|(^\\d\x7b17\x7d(\\d|X|x)$)`, fl.Field().String())",
  "\treturn match",
  "\x7d"]

/-- The function of a seeded rule, by its name. -/
def knownFunction? (name : Text) : Option Text :=
  if name = "validateMobile".toList then some mobileFunction
  else if name = "validateIdCard".toList then some idCardFunction
  else none

/-- A function for a custom rule, to be filled in. -/
def stub (tag name : Text) : Text :=
  "// " ++ name ++ " implements the \"" ++ tag ++ "\" validation tag.\n" ++
  "func " ++ name ++ "(fl validator.FieldLevel) bool \x7b\n" ++
  "\t// Implement the " ++ tag ++ " rule here.\n" ++
  "\treturn true\n" ++
  "\x7d\n"

/-! ### Types files -/

/-- The `Validate` method of a type. -/
def validateMethod (type : Text) : Text :=
  "func (r *" ++ type ++ ") Validate() error \x7b\n\treturn validate.Struct(r)\n\x7d\n"

/-! ### Translation files -/

def messageMapComment : Text :=
  "// translationMessages maps validation tags to messages; \x7b0\x7d is the field name."

/-- The beginning of the message map, up to its opening brace. -/
def messageMapHead : Text := "var translationMessages = map[string]string"

/-- Builds the translator and registers all entries of the message map. -/
def translationInit (l : Locale) : Text :=
  "// init builds the translator and registers every entry of translationMessages.\n" ++
  "func init() \x7b\n" ++
  "\tlocale := " ++ l.name ++ ".New()\n" ++
  "\tuni := ut.New(locale, locale)\n" ++
  "\ttrans, _ = uni.GetTranslator(" ++ quote l.name ++ ")\n" ++
  "\t_ = " ++ l.label ++ ".RegisterDefaultTranslations(validate, trans)\n" ++
  "\n" ++
  "\tfor tag, message := range translationMessages \x7b\n" ++
  "\t\tregisterTranslation(tag, message)\n" ++
  "\t\x7d\n" ++
  "\x7d\n"

def translateFunctions : Text := lines [
  "// registerTranslation hooks message up as the translation of tag.",
  "func registerTranslation(tag, message string) \x7b",
  "\t_ = validate.RegisterTranslation(tag, trans, func(ut ut.Translator) error \x7b",
  "\t\treturn ut.Add(tag, message, true)",
  "\t\x7d, func(ut ut.Translator, fe validator.FieldError) string \x7b",
  "\t\tt, _ := ut.T(tag, fe.Field())",
  "\t\treturn t",
  "\t\x7d)",
  "\x7d",
  "",
  "// Translate converts validation errors into a single localized error.",
  "func Translate(err error) error \x7b",
  "\tif err == nil \x7b",
  "\t\treturn nil",
  "\t\x7d",
  "",
  "\tvar errs validator.ValidationErrors",
  "\tif !errors.As(err, &errs) \x7b",
  "\t\treturn err",
  "\t\x7d",
  "",
  "\tmessages := make([]string, 0, len(errs))",
  "\tfor _, e := range errs \x7b",
  "\t\tmessages = append(messages, e.Translate(trans))",
  "\t\x7d",
  "\treturn errors.New(strings.Join(messages, \", \"))",
  "\x7d"]

/-- Statements that register a message by calls. -/
def translationCalls (tag message : Text) : Text :=
  "\t_ = trans.Add(" ++ quote tag ++ ", " ++ quote message ++ ", false)\n" ++
  "\t_ = validate.RegisterTranslation(" ++ quote tag ++ ", trans, func(ut ut.Translator) error \x7b\n" ++
  "\t\treturn nil\n" ++
  "\t\x7d, func(ut ut.Translator, fe validator.FieldError) string \x7b\n" ++
  "\t\tt, _ := ut.T(" ++ quote tag ++ ", fe.Field())\n" ++
  "\t\treturn t\n" ++
  "\t\x7d)\n"

end RuleWeaver.Snippet
