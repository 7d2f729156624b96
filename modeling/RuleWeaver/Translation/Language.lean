import RuleWeaver.Text.Basic

/-!
# Languages

The languages that messages can be in, the packages that go with them, and their messages.
-/

namespace RuleWeaver

inductive Language
  | zh
  | zhTw
  | en
deriving DecidableEq, Repr

/-- The packages that a translation file uses for a language. -/
structure Locale where
  /-- The name of the locale, which is also that of its package. -/
  name : Text
  /-- The import path of the engine's translations. -/
  translations : Text
  /-- The name those are imported under. -/
  label : Text
deriving DecidableEq, Repr

namespace Language

/-- The name that chooses a language. -/
def name : Language → Text
  | .zh => "zh"
  | .zhTw => "zh_TW"
  | .en => "en"

/-- The language with a name. -/
def ofName? (name : Text) : Option Language := [zh, zhTw, en].find? (·.name = name)

def locale : Language → Locale
  | .zh => ⟨"zh", "github.com/go-playground/validator/v10/translations/zh", "zhTranslations"⟩
  | .zhTw => ⟨"zh_Hant_TW", "github.com/go-playground/validator/v10/translations/zh_tw", "zhTwTranslations"⟩
  | .en => ⟨"en", "github.com/go-playground/validator/v10/translations/en", "enTranslations"⟩

/-- The rules whose messages say more than that the format is wrong. -/
inductive Subject
  | mobile
  | idCard
  | uuid
  | dateTime
  | other

/-- The subject of a tag. -/
def subject (tag : Text) : Subject :=
  if tag = "mobile".toList then .mobile
  else if tag = "idcard".toList then .idCard
  else if tag = "uuid".toList then .uuid
  else if tag = "datetime".toList then .dateTime
  else .other

/-- What a message says; the field name stands at the place marked in front. -/
def wording : Language → Subject → Text
  | .zh, .mobile => "手机号码格式不正确"
  | .zh, .idCard => "身份证号码格式不正确"
  | .zh, .uuid => "格式不正确"
  | .zh, .dateTime => "日期格式不正确"
  | .zh, .other => "格式不符合要求"
  | .zhTw, .mobile => "手機號碼格式不正確"
  | .zhTw, .idCard => "身分證號碼格式不正確"
  | .zhTw, .uuid => "格式不正確"
  | .zhTw, .dateTime => "日期格式不正確"
  | .zhTw, .other => "格式不符合要求"
  | .en, .mobile => " must be a valid mobile number"
  | .en, .idCard => " must be a valid ID card number"
  | .en, .uuid => " must be a valid UUID"
  | .en, .dateTime => " must be a valid date"
  | .en, .other => " is not in the expected format"

/-- The message for a tag. -/
def message (l : Language) (tag : Text) : Text := "\x7b0\x7d" ++ l.wording (subject tag)

/-- The import path of the locale. -/
def localePath (l : Language) : Text := "github.com/go-playground/locales/" ++ l.locale.name

end Language

end RuleWeaver
