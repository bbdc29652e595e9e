import PocketCalculator.Locale.Language
import PocketCalculator.Measure.Unit

namespace PocketCalculator.Locale

structure Labels where
  calculator : String
  converter : String
  clear : String
  length : String
  weight : String
  temperature : String
  data : String
  error : String
  scientific : String
  history : String
deriving DecidableEq, Repr

namespace Labels

def category (labels : Labels) : Measure.Category → String
  | .length => labels.length
  | .weight => labels.weight
  | .temperature => labels.temperature
  | .data => labels.data

end Labels

namespace Language

def labels : Language → Labels
  | english =>
    { calculator := "Calculator"
      converter := "Converter"
      clear := "AC"
      length := "Length"
      weight := "Weight"
      temperature := "Temp"
      data := "Data"
      error := "Error"
      scientific := "Scientific"
      history := "History" }
  | odia =>
    { calculator := "କାଲକୁଲେଟର"
      converter := "କନଭର୍ଟର"
      clear := "ସଫା"
      length := "ଦୈର୍ଘ୍ୟ"
      weight := "ଓଜନ"
      temperature := "ତାପମାତ୍ରା"
      data := "ଡାଟା"
      error := "ତ୍ରୁଟି"
      scientific := "ବୈଜ୍ଞାନିକ"
      history := "ଇତିହାସ" }
  | hindi =>
    { calculator := "कैलकुलेटर"
      converter := "कन्वर्टर"
      clear := "साफ़"
      length := "लंबाई"
      weight := "वजन"
      temperature := "तापमान"
      data := "डेटा"
      error := "त्रुटि"
      scientific := "वैज्ञानिक"
      history := "इतिहास" }
  | bengali =>
    { calculator := "ক্যালকুলেটর"
      converter := "কনভার্টার"
      clear := "মুছুন"
      length := "দৈর্ঘ্য"
      weight := "ওজন"
      temperature := "তাপমাত্রা"
      data := "ডেটা"
      error := "ত্রুটি"
      scientific := "বৈজ্ঞানিক"
      history := "ইতিহাস" }
  | marathi =>
    { calculator := "कॅल्क्युलेटर"
      converter := "कन्व्हर्टर"
      clear := "साफ"
      length := "लांबी"
      weight := "वजन"
      temperature := "तापमान"
      data := "डेटा"
      error := "त्रुटी"
      scientific := "वैज्ञानिक"
      history := "इतिहास" }
  | gujarati =>
    { calculator := "કેલ્ક્યુલેટર"
      converter := "કન્વર્ટર"
      clear := "સાફ"
      length := "લંબાઈ"
      weight := "વજન"
      temperature := "તાપમાન"
      data := "ડેટા"
      error := "ભૂલ"
      scientific := "વૈજ્ઞાનિક"
      history := "ઇતિહાસ" }
  | telugu =>
    { calculator := "కాలిక్యులేటర్"
      converter := "కన్వర్టర్"
      clear := "క్లియర్"
      length := "పొడవు"
      weight := "బరువు"
      temperature := "ఉష్ణోగ్రత"
      data := "డేటా"
      error := "లోపం"
      scientific := "శాస్త్రీయ"
      history := "చరిత్ర" }
  | tamil =>
    { calculator := "கால்குலேட்டர்"
      converter := "மாற்றி"
      clear := "அழி"
      length := "நீளம்"
      weight := "எடை"
      temperature := "வெப்பம்"
      data := "தரவு"
      error := "பிழை"
      scientific := "அறிவியல்"
      history := "வரலாறு" }
  | kannada =>
    { calculator := "ಕ್ಯಾಲ್ಕುಲೇಟರ್"
      converter := "ಪರಿವರ್ತಕ"
      clear := "ಅಳಿಸು"
      length := "ಉದ್ದ"
      weight := "ತೂಕ"
      temperature := "ತಾಪಮಾನ"
      data := "ಡೇಟಾ"
      error := "ದೋಷ"
      scientific := "ವೈಜ್ಞಾನಿಕ"
      history := "ಇತಿಹಾಸ" }
  | malayalam =>
    { calculator := "കാൽക്കുലേറ്റർ"
      converter := "കൺവെർട്ടർ"
      clear := "മായ്‌ക്കുക"
      length := "നീളം"
      weight := "ഭാരം"
      temperature := "താപനില"
      data := "ഡാറ്റ"
      error := "പിശക്"
      scientific := "ശാസ്ത്രീയ"
      history := "ചരിത്രം" }
  | punjabi =>
    { calculator := "ਕੈਲਕੁਲੇਟਰ"
      converter := "ਕਨਵਰਟਰ"
      clear := "ਸਾਫ"
      length := "ਲੰਬਾਈ"
      weight := "ਭਾਰ"
      temperature := "ਤਾਪਮਾਨ"
      data := "ਡਾਟਾ"
      error := "ਗਲਤੀ"
      scientific := "ਵਿਗਿਆਨਕ"
      history := "ਇਤਿਹਾਸ" }

end Language

end PocketCalculator.Locale
