import PocketCalculator.Keypad.Completion
import PocketCalculator.Main
import PocketCalculator.Proofs.PercentDivision
import PocketCalculator.Proofs.CalculatorDisplay
import PocketCalculator.Proofs.CalculatorHistory
import PocketCalculator.Proofs.RefusedCommand
import PocketCalculator.Proofs.DisplayedResult
import PocketCalculator.Proofs.ContinuedResult
import PocketCalculator.Proofs.KeypadTabs
import PocketCalculator.Proofs.DisplayLanguage
import PocketCalculator.Proofs.ConversionText
import PocketCalculator.Proofs.ConverterRuns
import PocketCalculator.Proofs.AsciiBuffers
import PocketCalculator.Proofs.DigitKeys
import PocketCalculator.Proofs.ReadableBuffers
import PocketCalculator.Proofs.SavedSettings
import PocketCalculator.Proofs.LongestDecimal
import PocketCalculator.Proofs.OperatorSpellings
import PocketCalculator.Proofs.WrapperKeys
import PocketCalculator.Proofs.SettingLayers
import PocketCalculator.Proofs.KeyRuns
import PocketCalculator.Proofs.LexicalFaults
import PocketCalculator.Proofs.LocalizedDigits
import PocketCalculator.Proofs.EngineOptions
import PocketCalculator.Proofs.CanonicalNumerals
import PocketCalculator.Proofs.DecimalRounding
import PocketCalculator.Proofs.ResultDecimals
import PocketCalculator.Proofs.LinearConversions
import PocketCalculator.Proofs.TreeBounds
