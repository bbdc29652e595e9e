import PocketCalculator.Text.Blank

namespace PocketCalculator.Locale

inductive Language where
  | english
  | odia
  | hindi
  | bengali
  | marathi
  | gujarati
  | telugu
  | tamil
  | kannada
  | malayalam
  | punjabi
deriving DecidableEq, Repr, Inhabited

namespace Language

def all : List Language :=
  [english, odia, hindi, bengali, marathi, gujarati,
    telugu, tamil, kannada, malayalam, punjabi]

def code : Language → String
  | english => "en"
  | odia => "od"
  | hindi => "hi"
  | bengali => "bn"
  | marathi => "mr"
  | gujarati => "gu"
  | telugu => "te"
  | tamil => "ta"
  | kannada => "kn"
  | malayalam => "ml"
  | punjabi => "pa"

def name : Language → String
  | english => "English"
  | odia => "Odia"
  | hindi => "Hindi"
  | bengali => "Bengali"
  | marathi => "Marathi"
  | gujarati => "Gujarati"
  | telugu => "Telugu"
  | tamil => "Tamil"
  | kannada => "Kannada"
  | malayalam => "Malayalam"
  | punjabi => "Punjabi"

def nativeName : Language → String
  | english => "English"
  | odia => "ଓଡ଼ିଆ"
  | hindi => "हिन्दी"
  | bengali => "বাংলা"
  | marathi => "मराठी"
  | gujarati => "ગુજરાતી"
  | telugu => "తెలుగు"
  | tamil => "தமிழ்"
  | kannada => "ಕನ್ನಡ"
  | malayalam => "മലയാളം"
  | punjabi => "ਪੰਜਾਬੀ"

/-- The digit zero of the script. The other digits follow it. -/
def zero : Language → Char
  | english => '0'
  | odia => '୦'
  | hindi => '०'
  | bengali => '০'
  | marathi => '०'
  | gujarati => '૦'
  | telugu => '౦'
  | tamil => '௦'
  | kannada => '೦'
  | malayalam => '൦'
  | punjabi => '੦'

/-- The digit of the script with a value below ten. -/
def digit? (language : Language) (value : Nat) : Option Char :=
  if value < 10 then some (Char.ofNat (language.zero.toNat + value)) else none

/-- The language with a code, in any case. -/
def ofCode? (code : String) : Option Language :=
  all.find? (·.code == Text.lower code)

end Language

end PocketCalculator.Locale
