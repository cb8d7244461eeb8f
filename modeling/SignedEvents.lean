import SignedEvents.Batch
import SignedEvents.Binary64.Basic
import SignedEvents.Binary64.Shortest
import SignedEvents.Bus.Basic
import SignedEvents.Bus.Capacity
import SignedEvents.Bus.Channel
import SignedEvents.Clock
import SignedEvents.CommandLine.Arguments
import SignedEvents.CommandLine.Run
import SignedEvents.Crypto.HexSignature
import SignedEvents.Crypto.Schnorr
import SignedEvents.Crypto.Secp256k1
import SignedEvents.Crypto.Sha256
import SignedEvents.Envelope
import SignedEvents.Event.Basic
import SignedEvents.Event.CanonicalForm
import SignedEvents.Event.Draft
import SignedEvents.Event.Examination
import SignedEvents.Files.Path
import SignedEvents.Files.Tree
import SignedEvents.Intake
import SignedEvents.Json.Error
import SignedEvents.Json.Printer
import SignedEvents.Json.Reader
import SignedEvents.Json.Source
import SignedEvents.Json.Token
import SignedEvents.Json.Value
import SignedEvents.Log
import SignedEvents.Logging.Calendar
import SignedEvents.Logging.Hierarchy
import SignedEvents.Logging.Level
import SignedEvents.Logging.Registry
import SignedEvents.Main
import SignedEvents.Problem
import SignedEvents.Proofs.Binary64.Range
import SignedEvents.Proofs.Bus.Accounts
import SignedEvents.Proofs.Bus.Delivery
import SignedEvents.Proofs.Bus.History
import SignedEvents.Proofs.Bus.Line
import SignedEvents.Proofs.Bus.Moves
import SignedEvents.Proofs.Bus.Room
import SignedEvents.Proofs.CommandLine.Report
import SignedEvents.Proofs.CommandLine.Undecodable
import SignedEvents.Proofs.Crypto.HexSignature
import SignedEvents.Proofs.Draft.Examination
import SignedEvents.Proofs.Draft.Form
import SignedEvents.Proofs.Event.Acceptance
import SignedEvents.Proofs.Event.CanonicalForm
import SignedEvents.Proofs.Event.Checks
import SignedEvents.Proofs.Event.Shape
import SignedEvents.Proofs.Event.SharedTexts
import SignedEvents.Proofs.Event.TamperEvidence
import SignedEvents.Proofs.Event.WireForm
import SignedEvents.Proofs.Json.ControlCharacters
import SignedEvents.Proofs.Json.Grammar
import SignedEvents.Proofs.Json.Machine
import SignedEvents.Proofs.Json.Margins
import SignedEvents.Proofs.Json.Meaning
import SignedEvents.Proofs.Json.Objects
import SignedEvents.Proofs.Json.Reading
import SignedEvents.Proofs.Json.RepeatedNames
import SignedEvents.Proofs.Json.RoundTrip
import SignedEvents.Proofs.Json.Scanner
import SignedEvents.Proofs.Json.Standard
import SignedEvents.Proofs.Json.Surrogates
import SignedEvents.Proofs.Json.Tree
import SignedEvents.Proofs.Logging.Frame
import SignedEvents.Proofs.Logging.SetUp
import SignedEvents.Proofs.Message.Batch
import SignedEvents.Proofs.Message.Bytes
import SignedEvents.Proofs.Message.Contents
import SignedEvents.Proofs.Message.Intake
import SignedEvents.Proofs.Message.Notices
import SignedEvents.Proofs.Message.Producer
import SignedEvents.Proofs.Message.Records
import SignedEvents.Proofs.Message.Relay
import SignedEvents.Proofs.Message.Session
import SignedEvents.Proofs.Message.Spelling
import SignedEvents.Proofs.Settings.Allowance
import SignedEvents.Proofs.Settings.Numeral
import SignedEvents.Proofs.Settings.Snapshots
import SignedEvents.Proofs.Text.Encoding
import SignedEvents.Proofs.Text.Hex
import SignedEvents.Proofs.Text.HexSpelling
import SignedEvents.Proofs.Text.IntegerLiteral
import SignedEvents.Proofs.Text.Lines
import SignedEvents.Proofs.Text.Numeral
import SignedEvents.Proofs.Text.OneLine
import SignedEvents.Proofs.Text.Utf8
import SignedEvents.Session
import SignedEvents.Settings.Basic
import SignedEvents.Settings.EnvFile
import SignedEvents.Settings.Environment
import SignedEvents.Settings.Numeral
import SignedEvents.Settings.Steps
import SignedEvents.Settings.Variable
import SignedEvents.Text.Basic
import SignedEvents.Text.Blank
import SignedEvents.Text.DecimalDigit
import SignedEvents.Text.Encoding
import SignedEvents.Text.Hex
import SignedEvents.Text.IntegerLiteral
import SignedEvents.Text.Newline
import SignedEvents.Text.Numeral
import SignedEvents.Text.Printable
import SignedEvents.Text.Quoted
import SignedEvents.Text.Utf8
import SignedEvents.Verdict
