import KaqTranslator.Api.EndpointContract
import KaqTranslator.Api.LogPrivacy
import KaqTranslator.Api.Readings
import KaqTranslator.Api.ResolutionLog
import KaqTranslator.Data.AlignmentSignal
import KaqTranslator.Data.DialectSignal
import KaqTranslator.Data.GluedWords
import KaqTranslator.Data.SplitIntegrity
import KaqTranslator.Deployment.Artifacts
import KaqTranslator.Deployment.PromotedBytes
import KaqTranslator.Deployment.Registration
import KaqTranslator.Deployment.Repackaging
import KaqTranslator.Evaluation.CardRoundTrip
import KaqTranslator.Evaluation.Diagnosis
import KaqTranslator.Evaluation.LengthBias
import KaqTranslator.Evaluation.LengthBiasProcessor
import KaqTranslator.Evaluation.PredictionFiles
import KaqTranslator.Evaluation.Reevaluation
import KaqTranslator.System.Shown
import KaqTranslator.Training.CheckpointAveraging
import KaqTranslator.Training.Coverage
import KaqTranslator.Training.Decoding
import KaqTranslator.Training.Decomposition
import KaqTranslator.Training.FineTuning
import KaqTranslator.Training.JobConfig
import KaqTranslator.Training.Provenance
import KaqTranslator.Web.InputGate
import KaqTranslator.Web.Page
import KaqTranslator.Web.PollResult
import KaqTranslator.Web.ReportBudget
