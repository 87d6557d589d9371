import RecursiveDescent.Binary.Grammar
import RecursiveDescent.GrammarRun.Allotment
import RecursiveDescent.Interchange.Record
import RecursiveDescent.Main
import RecursiveDescent.Session
import RecursiveDescent.Proofs.Meaning
import RecursiveDescent.Proofs.Engine
import RecursiveDescent.Proofs.Discipline
import RecursiveDescent.Proofs.TableEffects
import RecursiveDescent.Proofs.SoundTables
import RecursiveDescent.Proofs.Completeness
import RecursiveDescent.Proofs.Calls
import RecursiveDescent.Proofs.Transparency
import RecursiveDescent.Proofs.Projection
import RecursiveDescent.Proofs.Consumption
import RecursiveDescent.Proofs.Throughout
import RecursiveDescent.Proofs.TableUse
import RecursiveDescent.Proofs.AppendOnly
import RecursiveDescent.Proofs.ParsingExpression
import RecursiveDescent.Proofs.PegSemantics
import RecursiveDescent.Proofs.Guarded
import RecursiveDescent.Proofs.Locality
import RecursiveDescent.Proofs.Trace
import RecursiveDescent.Proofs.MemoizedEvents
import RecursiveDescent.Proofs.Confinement
import RecursiveDescent.Proofs.Takes
import RecursiveDescent.Proofs.DecimalSyntax
import RecursiveDescent.Proofs.ArithmeticSyntax
import RecursiveDescent.Proofs.Evaluation
import RecursiveDescent.Proofs.CalculatorRuns
import RecursiveDescent.Proofs.CollectorAdapters
import RecursiveDescent.Proofs.RuleDefinitions
import RecursiveDescent.Proofs.ForwardDeclarations
import RecursiveDescent.Proofs.HookErasure
import RecursiveDescent.Proofs.NestedTraces
import RecursiveDescent.Proofs.UntouchedTables
import RecursiveDescent.Proofs.CallHistory
import RecursiveDescent.Proofs.MachineRuns
import RecursiveDescent.Proofs.GreedyRepetition
import RecursiveDescent.Proofs.ObtainedBounds
import RecursiveDescent.Proofs.WholeSources
import RecursiveDescent.Proofs.StandaloneGrammars
import RecursiveDescent.Proofs.LexicalGrammars
import RecursiveDescent.Proofs.LongestMatches
import RecursiveDescent.Proofs.IntegerLiterals
import RecursiveDescent.Proofs.DecimalLiterals
import RecursiveDescent.Proofs.FixedWidthIntegers
import RecursiveDescent.Proofs.ItemLists
import RecursiveDescent.Proofs.LengthPrefixedPayloads
import RecursiveDescent.Proofs.NumberLists
import RecursiveDescent.Proofs.NestedBrackets
import RecursiveDescent.Proofs.SharedDerivations
import RecursiveDescent.Proofs.Literals
import RecursiveDescent.Proofs.SpelledText
import RecursiveDescent.Proofs.RecognizedText
import RecursiveDescent.Proofs.ExplicitEnd
import RecursiveDescent.Proofs.ReservedWords
import RecursiveDescent.Proofs.JoinedDisplays
import RecursiveDescent.Proofs.EarliestExtrema
import RecursiveDescent.Proofs.ValueOrder
import RecursiveDescent.Proofs.SortedCollections
import RecursiveDescent.Proofs.RefusedBounds
import RecursiveDescent.Proofs.NearestNumbers
import RecursiveDescent.Proofs.FloatAmounts
import RecursiveDescent.Proofs.HitRates
