import ProcmailRs.Delivery.Proofs.MboxProofs
import ProcmailRs.Eval.Proofs.ElseGateProofs
import ProcmailRs.Eval.Proofs.FinalDeliveryProofs
import ProcmailRs.Eval.Proofs.MessageVersionProofs
import ProcmailRs.Eval.Proofs.ResumeProofs
import ProcmailRs.HeaderEdit.Proofs.IndexedProofs
import ProcmailRs.Proofs.MessageProofs
import ProcmailRs.Eval.Proofs.CopyBlockProofs
import ProcmailRs.Delivery.Failure
import ProcmailRs.Delivery.Proofs.MboxAppendProofs
import ProcmailRs.Delivery.Proofs.FanoutProofs
import ProcmailRs.Config.Shell
import ProcmailRs.Config.ExpressionParser
import ProcmailRs.Config.Destination
import ProcmailRs.Config.Value
import ProcmailRs.Config.Proofs.ValueProofs
import ProcmailRs.Config.Proofs.BindingProofs
import ProcmailRs.Config.Ordered
import ProcmailRs.Config.Proofs.ParserProofs
import ProcmailRs.Config.Proofs.DestinationProofs
import ProcmailRs.Eval.RcFile
import ProcmailRs.Eval.RcCheck
import ProcmailRs.Eval.Proofs.NestingProofs
import ProcmailRs.Eval.Proofs.RcFileProofs
import ProcmailRs.Config.RcText
import ProcmailRs.Config.RcParser
import ProcmailRs.Config.Ledger
import ProcmailRs.Config.Proofs.RcParserProofs
import ProcmailRs.Config.Proofs.RcParserFuelProofs
import ProcmailRs.Eval.LoadedFiles
import ProcmailRs.Eval.Proofs.LoadedFilesProofs
import ProcmailRs.Proofs.ReadingProofs
import ProcmailRs.Proofs.EncodedWordProofs
import ProcmailRs.Proofs.GeneratedFieldProofs
import ProcmailRs.Lib.FirstSeen
import ProcmailRs.Proofs.StructuredHeaderProofs
import ProcmailRs.HeaderEdit.Proofs.KeywordProofs
import ProcmailRs.AddressHeader
import ProcmailRs.Lib.Quoting
import ProcmailRs.Proofs.AddressScanProofs
import ProcmailRs.Proofs.AddrSpecProofs
import ProcmailRs.Proofs.AddressProofs
import ProcmailRs.Proofs.MailboxFormProofs
import ProcmailRs.Lib.Nesting
import ProcmailRs.Proofs.AddressCommentProofs
import ProcmailRs.Mime
import ProcmailRs.MimeTree
import ProcmailRs.Proofs.MimeProofs
import ProcmailRs.Formail
import ProcmailRs.HeaderEdit.Proofs.PatternProofs
import ProcmailRs.Proofs.FormailFieldProofs
import ProcmailRs.Proofs.FormailBodyProofs
import ProcmailRs.Proofs.FormailProofs
import ProcmailRs.Config.Proofs.ShellPatternProofs
import ProcmailRs.HeaderEdit.Proofs.ValidationProofs
import ProcmailRs.Eval.Proofs.CaptureProofs
import ProcmailRs.Proofs.TruncationProofs
import ProcmailRs.Lib.Splitting
import ProcmailRs.Proofs.AddressListProofs
import ProcmailRs.HeaderEdit.Handles
import ProcmailRs.HeaderEdit.Proofs.HandleProofs
import ProcmailRs.Config.ShellCondition
import ProcmailRs.Config.Proofs.ShellConditionProofs
import ProcmailRs.Config.PatternWord
import ProcmailRs.Config.Proofs.PatternWordProofs
import ProcmailRs.Config.Proofs.QuotedPartsProofs
import ProcmailRs.FileName
import ProcmailRs.Proofs.FileNameProofs
import ProcmailRs.Formail.Pieces
import ProcmailRs.Proofs.FormailPiecesProofs
import ProcmailRs.Config.Proofs.PathProofs
import ProcmailRs.Lib.Layers
import ProcmailRs.Environment
import ProcmailRs.ExternalProcess
import ProcmailRs.Proofs.EnvironmentProofs
import ProcmailRs.Config.Positional
import ProcmailRs.Proofs.DecimalProofs
import ProcmailRs.Config.Proofs.PositionalProofs
import ProcmailRs.Proofs.RuntimeLayersProofs
import ProcmailRs.Proofs.ExternalProcessProofs
import ProcmailRs.Proofs.TraceJsonProofs
import ProcmailRs.Proofs.TraceWriterProofs
import ProcmailRs.Config.Proofs.ReferenceProofs
import ProcmailRs.Config.AssignmentWord
import ProcmailRs.Config.Proofs.AssignmentWordProofs
import ProcmailRs.Delivery.Proofs.PostmarkDateProofs
import ProcmailRs.Proofs.HeaderScanProofs
import ProcmailRs.HeaderEdit.Proofs.AllowanceProofs
import ProcmailRs.HeaderEdit.Proofs.UniqueProofs
import ProcmailRs.Lib.Interleaving
import ProcmailRs.Delivery.LocalLock
import ProcmailRs.Delivery.Proofs.LocalLockProofs
import ProcmailRs.Delivery.MboxDelivery
import ProcmailRs.Delivery.Proofs.MboxDeliveryProofs
import ProcmailRs.Delivery.Proofs.MboxRefinementProofs
