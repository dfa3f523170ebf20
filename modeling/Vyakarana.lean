import Vyakarana.BoxTable
import Vyakarana.CommandLine.Options
import Vyakarana.CommandLine.Parse
import Vyakarana.Config
import Vyakarana.Config.Load
import Vyakarana.Config.Toml
import Vyakarana.Derivation
import Vyakarana.Event
import Vyakarana.Files
import Vyakarana.Gana
import Vyakarana.Grammar
import Vyakarana.Json
import Vyakarana.LogLine
import Vyakarana.LogSettings
import Vyakarana.Main
import Vyakarana.OrderedSet
import Vyakarana.Pipeline
import Vyakarana.Program
import Vyakarana.Report
import Vyakarana.Rule
import Vyakarana.RuleSet
import Vyakarana.RuleSet.OnState
import Vyakarana.Sound
import Vyakarana.SoundClass
import Vyakarana.State
import Vyakarana.Stem.BeforeVowel
import Vyakarana.Stem.LitE
import Vyakarana.Stem.Reduplication
import Vyakarana.Stem.Strengthening
import Vyakarana.Stem.Velar
import Vyakarana.Stem.VowelLoss
import Vyakarana.Term
import Vyakarana.Text.Blank
import Vyakarana.Text.Quoted
import Vyakarana.Text.Unprintable
import Vyakarana.Toml.Quoting
import Vyakarana.Toml.Reader
import Vyakarana.Toml.Scalar
import Vyakarana.Toml.Value
import Vyakarana.Upadesha
import Vyakarana.Vocabulary
import Vyakarana.Window
import Vyakarana.Proofs.Gates
import Vyakarana.Proofs.Assembly
import Vyakarana.Proofs.GateLists
import Vyakarana.Proofs.Numbering
import Vyakarana.Proofs.Confluence
import Vyakarana.Proofs.Search
import Vyakarana.Proofs.Revaluation
import Vyakarana.Proofs.Schedule
import Vyakarana.Proofs.Evolution
import Vyakarana.Proofs.RuleSet
import Vyakarana.Proofs.Stages
import Vyakarana.Proofs.StandardGrammar
import Vyakarana.Proofs.Frame
import Vyakarana.Proofs.Transparency
import Vyakarana.Proofs.DeriveCommand
import Vyakarana.Proofs.ESubstitution
import Vyakarana.Proofs.LastRuling
import Vyakarana.Proofs.ItLetters
import Vyakarana.Proofs.RootLists
import Vyakarana.Proofs.Declines
import Vyakarana.Proofs.DisjointSets
import Vyakarana.Proofs.Priority
import Vyakarana.Proofs.SettledWindows
import Vyakarana.Proofs.Sounding
import Vyakarana.Proofs.TomlStrings
import Vyakarana.Proofs.TomlDocuments
import Vyakarana.Proofs.ConfigRoundTrip
import Vyakarana.Proofs.ItNotation
import Vyakarana.Proofs.AffixLetters
import Vyakarana.Proofs.BhuInLit
import Vyakarana.Proofs.SimultaneousStems
import Vyakarana.Proofs.VowelGrades
import Vyakarana.Proofs.ReducedSyllable
import Vyakarana.Proofs.NearestMember
import Vyakarana.Proofs.Samprasarana
import Vyakarana.Proofs.Augments
import Vyakarana.Proofs.ClassSpecs
import Vyakarana.Proofs.SearchEvents
import Vyakarana.Proofs.JsonTexts
import Vyakarana.Proofs.ReportFormats
import Vyakarana.Proofs.Neighbours
import Vyakarana.Proofs.VelarWindows
